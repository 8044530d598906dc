import Mathlib.Data.List.Induction
import TraceArchive.Proofs.Service.Answers
import TraceArchive.Service.Requests

/-!
# Traffic

Any number of clients have one request each under way. In a turn one client
makes the next call of its request, under conditions of that turn; what is left
of the request then waits for the next turn of the client. So a run is a list of
turns, and all interleavings of the calls are runs.
-/

namespace TraceArchive

/-- A request of a client. -/
inductive Request where
  | submit (principal : Option String) (message : Wire.Trace)
  | get (named : String)
  | setTag (principal : Option String) (named key value : String)
  | deleteTag (principal : Option String) (named key : String)

/-- What a request ends with. -/
abbrev Reply := Except ServiceError Trace

/-- What a service with some settings does about a request. -/
def Request.attempt (settings : Settings) : Request → Attempt Trace
  | .submit principal message => Service.submit settings principal message
  | .get named => Service.get named
  | .setTag principal named key value =>
      Service.setTag principal named key value
  | .deleteTag principal named key => Service.deleteTag principal named key

/-- One turn of a client. -/
structure Turn (Client : Type) where
  client : Client
  conditions : Conditions := {}
  /-- When a call that is never answered is given up. -/
  deadline : Nat := 0
  /-- The experiments that the cache lets go before the call. -/
  forgets : String → Bool := fun _ => false

/-- The world after its cache let experiments go. -/
def World.forget (world : World) (forgets : String → Bool) : World :=
  { world with
    cache :=
      { world.cache with
        known := world.cache.known.filter
          (fun identifier => !forgets identifier) } }

/-- A call that a client made in a world, with its answer. -/
structure Event (Client : Type) extends Exchange where
  client : Client
  world : World

/-- The clients and what they have done so far. -/
structure Traffic (Client : Type) where
  world : World
  /-- What is left of the request of each client. -/
  pending : Client → Program Reply
  history : List (Event Client)

namespace Traffic

variable {Client : Type} [DecidableEq Client]

/-- The clients before their first turns. -/
def start (settings : Settings) (requests : Client → Request)
    (world : World) : Traffic Client where
  world := world
  pending client := ((requests client).attempt settings).run
  history := []

/-- The traffic after the next call of a client. -/
def afterCall (traffic : Traffic Client) (turn : Turn Client) (call : Call)
    (resume : call.Answer → Program Reply) : Traffic Client :=
  let before := traffic.world.forget turn.forgets
  let (world, answer) :=
    before.answer turn.conditions.alone turn.deadline call
  { world
    pending := fun client =>
      if client = turn.client then resume answer else traffic.pending client
    history :=
      traffic.history ++ [⟨⟨call, answer⟩, turn.client, before⟩] }

/-- The traffic after a turn; a client whose request is over lets it pass. -/
def advance (traffic : Traffic Client) (turn : Turn Client) :
    Traffic Client :=
  match traffic.pending turn.client with
  | .done _ => traffic
  | .step call resume => traffic.afterCall turn call resume

/-- The traffic after turns. -/
def run (traffic : Traffic Client) (turns : List (Turn Client)) :
    Traffic Client :=
  turns.foldl advance traffic

/-- The calls that a client has made, with their answers. -/
def exchanges (traffic : Traffic Client) (client : Client) : List Exchange :=
  (traffic.history.filter (fun event => event.client = client)).map
    Event.toExchange

/-! ## Turns -/

@[simp]
theorem run_append
    (traffic : Traffic Client) (earlier later : List (Turn Client)) :
    traffic.run (earlier ++ later) = (traffic.run earlier).run later :=
  List.foldl_append

/-- What holds at the start and after every call of a run holds after all
turns. -/
theorem run_induction
    (invariant : Traffic Client → Prop) {traffic : Traffic Client}
    (initially : invariant traffic) (turns : List (Turn Client))
    (afterwards :
      ∀ earlier turn later call resume, turns = earlier ++ turn :: later →
        invariant (traffic.run earlier) →
          (traffic.run earlier).pending turn.client = .step call resume →
            invariant ((traffic.run earlier).afterCall turn call resume)) :
    invariant (traffic.run turns) := by
  induction turns using List.reverseRecOn with
  | nil => exact initially
  | append_singleton earlier turn inductionHypothesis =>
      have before : invariant (traffic.run earlier) := by
        refine inductionHypothesis ?_
        intro first next later call resume split
        exact afterwards first next (later ++ [turn]) call resume
          (by simp [split])
      rw [run_append]
      change invariant ((traffic.run earlier).advance turn)
      unfold advance
      split
      · exact before
      · rename_i call resume isNext
        exact afterwards earlier turn [] call resume rfl before isNext

theorem run_split
    {traffic : Traffic Client} {earlier later : List (Turn Client)}
    {turn : Turn Client} {call : Call} {resume : call.Answer → Program Reply}
    (isNext : (traffic.run earlier).pending turn.client = .step call resume) :
    traffic.run (earlier ++ turn :: later) =
      ((traffic.run earlier).afterCall turn call resume).run later := by
  rw [run_append]
  change ((traffic.run earlier).advance turn).run later = _
  rw [advance, isNext]

section AfterCall

variable {traffic : Traffic Client} {turn : Turn Client} {call : Call}
  {resume : call.Answer → Program Reply}

/-- The event of a call. -/
def event (traffic : Traffic Client) (turn : Turn Client) (call : Call) :
    Event Client :=
  let before := traffic.world.forget turn.forgets
  ⟨⟨call, (before.answer turn.conditions.alone turn.deadline call).2⟩,
    turn.client, before⟩

theorem afterCall_history :
    (traffic.afterCall turn call resume).history =
      traffic.history ++ [traffic.event turn call] :=
  rfl

theorem afterCall_pending_self :
    (traffic.afterCall turn call resume).pending turn.client =
      resume (traffic.event turn call).answer := by
  simp [afterCall, event]

theorem afterCall_pending_of_ne
    {client : Client} (different : client ≠ turn.client) :
    (traffic.afterCall turn call resume).pending client =
      traffic.pending client := by
  simp [afterCall, different]

theorem afterCall_store :
    (traffic.afterCall turn call resume).world.store =
      traffic.world.store.after call (traffic.event turn call).answer :=
  World.store_answer call

theorem exchanges_afterCall_self :
    (traffic.afterCall turn call resume).exchanges turn.client =
      traffic.exchanges turn.client ++
        [(traffic.event turn call).toExchange] := by
  simp [exchanges, afterCall_history, event]

theorem exchanges_afterCall_of_ne
    {client : Client} (different : client ≠ turn.client) :
    (traffic.afterCall turn call resume).exchanges client =
      traffic.exchanges client := by
  have other : ¬turn.client = client := fun same => different same.symm
  simp [exchanges, afterCall_history, event, other]

end AfterCall

/-! ## What every run keeps -/

/-- What is left of a request is what its calls and their answers left. -/
theorem reaches_run
    (settings : Settings) (requests : Client → Request) (world : World)
    (turns : List (Turn Client)) (client : Client) :
    ((requests client).attempt settings).run.Reaches
      (((start settings requests world).run turns).exchanges client)
      (((start settings requests world).run turns).pending client) := by
  refine run_induction
    (fun reached =>
      ((requests client).attempt settings).run.Reaches
        (reached.exchanges client) (reached.pending client))
    Program.Reaches.start turns ?_
  intro earlier turn _ call resume _ reaches isNext
  by_cases same : client = turn.client
  · subst same
    rw [exchanges_afterCall_self, afterCall_pending_self]
    exact Program.Reaches.answered _ (isNext ▸ reaches)
  · rw [exchanges_afterCall_of_ne same, afterCall_pending_of_ne same]
    exact reaches

theorem history_run
    (traffic : Traffic Client) (turns : List (Turn Client)) :
    traffic.history <+: (traffic.run turns).history := by
  refine run_induction
    (fun reached => traffic.history <+: reached.history) List.prefix_rfl turns
    ?_
  intro earlier turn later call resume _ extends' _
  rw [afterCall_history]
  exact extends'.trans (List.prefix_append _ _)

theorem exchanges_run
    (traffic : Traffic Client) (turns : List (Turn Client))
    (client : Client) :
    traffic.exchanges client <+: (traffic.run turns).exchanges client :=
  ((history_run traffic turns).filter _).map _

theorem grows_run
    (traffic : Traffic Client) (turns : List (Turn Client)) :
    TraceStore.Grows traffic.world.store (traffic.run turns).world.store := by
  refine run_induction
    (fun reached =>
      TraceStore.Grows traffic.world.store reached.world.store)
    (TraceStore.Grows.refl _) turns ?_
  intro earlier turn _ call resume _ grows _
  rw [afterCall_store]
  exact grows.trans (TraceStore.grows_after _ _ _)

end Traffic

end TraceArchive
