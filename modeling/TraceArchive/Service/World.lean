import TraceArchive.Service.Program

/-!
# Running requests

The collaborators of the service are a world: the store, the source of
identifiers, the cache of experiments, the questions that the catalog was asked,
and a clock. A request runs in it under conditions that say how each
collaborator behaves meanwhile. A call that is never answered lasts until the
deadline; all others take no time.
-/

namespace TraceArchive

/-- The experiments that are known to exist, and how often the cache was
asked for one that it had or had not. -/
structure ExperimentCache where
  known : List String
  hits : Nat
  misses : Nat
deriving DecidableEq, Repr

namespace ExperimentCache

/-- The cache without experiments. -/
def empty : ExperimentCache :=
  ⟨[], 0, 0⟩

/-- Asks for an experiment. -/
def consult (cache : ExperimentCache) (identifier : String) :
    ExperimentCache × Bool :=
  if cache.known.contains identifier then
    ({ cache with hits := cache.hits + 1 }, true)
  else ({ cache with misses := cache.misses + 1 }, false)

/-- Puts an experiment in. -/
def remember (cache : ExperimentCache) (identifier : String) :
    ExperimentCache :=
  { cache with known := identifier :: cache.known }

end ExperimentCache

/-- What lasts from one request to the next. -/
structure World where
  store : TraceStore
  ids : IdSequence
  cache : ExperimentCache
  /-- The experiments that the catalog was asked for, the latest last. -/
  lookups : List String
  /-- The time in milliseconds. -/
  clock : Nat

/-- The world before the first request. -/
def World.initial (ids : IdSequence) : World where
  store := .empty
  ids := ids
  cache := .empty
  lookups := []
  clock := 0

/-- How the collaborators behave during one request. -/
structure Conditions where
  /-- What keeps the source of identifiers from giving one. -/
  allocation : Option (Outcome AllocationError Empty) := none
  /-- What keeps the store from reading the trace with an identifier. -/
  reading : String → Option (Outcome StoreError Empty) := fun _ => none
  /-- What keeps the store from writing the trace with an identifier. -/
  writing : String → Option (Outcome StoreError Empty) := fun _ => none
  /-- What others write after the trace with an identifier was read. -/
  interference : String → TraceStore → TraceStore := fun _ store => store
  /-- Whether an experiment exists. -/
  catalog : String → Outcome CollaboratorError Bool :=
    fun _ => .answered true
  /-- Whether a client may write to a location. -/
  authorizer : TraceLocation → Option String →
      Outcome CollaboratorError Bool := fun _ _ => .answered true

namespace Outcome

/-- The outcome of a call that is kept from being answered. -/
def widen {Fault Answer : Type} : Outcome Fault Empty → Outcome Fault Answer
  | .failed fault => .failed fault
  | .stalled => .stalled

/-- Whether there is no answer. -/
def isStalled {Fault Answer : Type} : Outcome Fault Answer → Bool
  | .stalled => true
  | _ => false

end Outcome

namespace World

/-- The world after a call; if that is never answered, the deadline has
come. -/
def awaited {Fault Answer : Type} (world : World) (deadline : Nat)
    (outcome : Outcome Fault Answer) : World × Outcome Fault Answer :=
  if outcome.isStalled then ({ world with clock := deadline }, outcome)
  else (world, outcome)

/-- Allocates an identifier. -/
def allocate (world : World) (conditions : Conditions) (deadline : Nat) :
    World × Outcome AllocationError Identifier :=
  match conditions.allocation with
  | some hindrance => world.awaited deadline hindrance.widen
  | none =>
      let (ids, given) := world.ids.allocate
      ({ world with ids }, .ofExcept given)

/-- Reads a trace; afterwards others may write. -/
def read (world : World) (conditions : Conditions) (deadline : Nat)
    (traceId : String) : World × Outcome StoreError (Option StoredTrace) :=
  match conditions.reading traceId with
  | some hindrance => world.awaited deadline hindrance.widen
  | none =>
      ({ world with store := conditions.interference traceId world.store },
        .answered (world.store.get? traceId))

/-- Writes a trace. A hindrance comes before the store is touched. -/
def write (world : World) (conditions : Conditions) (deadline : Nat)
    (traceId : String) (expected : Nat) (trace : Trace) :
    World × Outcome StoreError StoredTrace :=
  match conditions.writing traceId with
  | some hindrance => world.awaited deadline hindrance.widen
  | none =>
      let (store, result) := world.store.write traceId expected trace
      ({ world with store }, .ofExcept result)

/-- Answers a call. -/
def answer (world : World) (conditions : Conditions) (deadline : Nat) :
    (call : Call) → World × call.Answer
  | .allocateId => world.allocate conditions deadline
  | .readTrace traceId => world.read conditions deadline traceId
  | .recallExperiment identifier =>
      let (cache, known) := world.cache.consult identifier
      ({ world with cache }, known)
  | .lookUpExperiment identifier =>
      { world with lookups := world.lookups ++ [identifier] }.awaited deadline
        (conditions.catalog identifier)
  | .rememberExperiment identifier =>
      ({ world with cache := world.cache.remember identifier }, ())
  | .authorize location principal =>
      world.awaited deadline (conditions.authorizer location principal)
  | .createTrace trace =>
      world.write conditions deadline trace.id 0 trace
  | .replaceTrace traceId expected trace =>
      world.write conditions deadline traceId expected trace

end World

namespace Program

/-- Runs a program to its end. -/
def runUntil {Result : Type} (conditions : Conditions) (deadline : Nat) :
    Program Result → World → World × Result
  | .done result, world => (world, result)
  | .step call resume, world =>
      let (next, answer) := world.answer conditions deadline call
      runUntil conditions deadline (resume answer) next

/-- Runs a request that has a time in milliseconds for its calls. -/
def runWithin {Result : Type} (program : Program Result)
    (conditions : Conditions) (timeout : Nat) (world : World) :
    World × Result :=
  program.runUntil conditions (world.clock + timeout) world

end Program

namespace Conditions

/-- Conditions under which nothing fails, every experiment of a list exists,
or every one at all without a list, and everyone may write. -/
def undisturbed (experiments : Option (List String)) : Conditions where
  catalog identifier :=
    match experiments with
    | none => .answered true
    | some known => .answered (known.contains identifier)

end Conditions

end TraceArchive
