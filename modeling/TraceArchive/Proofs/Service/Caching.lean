import TraceArchive.Proofs.Service.Alone

/-!
# The cache of experiments

Questions about locations are answered as they would be without the cache,
whatever the cache lets go meanwhile. It knows only experiments that the catalog
has confirmed; each question about an experiment is a hit or a miss, and each miss
is one question to the catalog. The main statement is `cache_transparent`.
-/

namespace TraceArchive

/-! ## Doing without the cache -/

namespace Access

/-- Makes sure that an experiment exists by asking the catalog. -/
def confirmExperiment (identifier : String) : Attempt Unit := do
  let found ← lookUp identifier
  if found then
    return ()
  else
    Attempt.require [.invalidLocation (.unknownExperiment identifier)]

def confirmTarget : TraceLocation → Attempt LocationTarget
  | .experiment identifier => do
      confirmExperiment identifier
      return .experiment identifier
  | .inferenceTable fullName => target (.inferenceTable fullName)

/-- Confirms that a location exists and that a client may write to it. -/
def confirm (location : TraceLocation) (principal : Option String) :
    Attempt ResolvedLocation := do
  let target ← confirmTarget location
  authorize location principal
  return ⟨location, target⟩

/-! ## Questions about locations -/

/-- What can be asked about a location. -/
inductive Question where
  | resolve (location : TraceLocation) (principal : Option String)
  | authorize (location : TraceLocation) (principal : Option String)

namespace Question

/-- Answers a question with the cache. -/
def attempt : Question → Attempt (Option ResolvedLocation)
  | .resolve location principal => do
      let resolved ← Access.resolve location principal
      return some resolved
  | .authorize location principal => do
      Access.authorize location principal
      return none

/-- Answers a question without the cache. -/
def confirmation : Question → Attempt (Option ResolvedLocation)
  | .resolve location principal => do
      let resolved ← confirm location principal
      return some resolved
  | .authorize location principal => do
      Access.authorize location principal
      return none

/-- The experiment whose existence is in question, if there is one. -/
def experiments : Question → List String
  | .resolve (.experiment identifier) _ => [identifier]
  | _ => []

end Question

/-- A question at some time: what the authorizer then says, how much time there
is in milliseconds, and which experiments the cache lets go before each call. -/
structure Visit where
  question : Question
  authorizer : TraceLocation → Option String →
      Outcome CollaboratorError Bool := fun _ _ => .answered true
  timeout : Nat := 0
  forgets : Nat → String → Bool := fun _ _ => false

end Access

/-- Runs a program while the cache lets experiments go before each call. -/
def Program.runForgetting
    {Result : Type} (conditions : Conditions) (deadline : Nat) :
    (Nat → String → Bool) → Program Result → World → World × Result
  | _, .done result, world => (world, result)
  | forgets, .step call resume, world =>
      let (next, answer) :=
        (world.forget (forgets 0)).answer conditions deadline call
      runForgetting conditions deadline (fun index => forgets (index + 1))
        (resume answer) next

namespace Access

def Visit.steady (visit : Visit)
    (catalog : String → Outcome CollaboratorError Bool) : Steady where
  catalog := catalog
  authorizer := visit.authorizer

/-- Answers the questions of visits one after another. -/
def visitAll (answer : Question → Attempt (Option ResolvedLocation))
    (catalog : String → Outcome CollaboratorError Bool) :
    List Visit → World →
      World × List (Except ServiceError (Option ResolvedLocation))
  | [], world => (world, [])
  | visit :: rest, world =>
      let (reached, result) :=
        (answer visit.question).run.runForgetting
          (visit.steady catalog).conditions (world.clock + visit.timeout)
          visit.forgets world
      let (last, results) := visitAll answer catalog rest reached
      (last, result :: results)

end Access

/-! ## Hits, misses and questions to the catalog -/

/-- How often the cache was asked for an experiment that it had or had not, and
for which experiments the catalog was asked. -/
structure Tally where
  hits : Nat
  misses : Nat
  asked : List String

def World.tally (world : World) : Tally where
  hits := world.cache.hits
  misses := world.cache.misses
  asked := world.lookups

/-- Whether a tally follows from another one by some experiments in question:
each is a hit or a miss, and the catalog was asked for the missed ones. -/
def Tally.Counts (before : Tally) (experiments : List String)
    (after : Tally) : Prop :=
  after.hits + after.misses =
      before.hits + before.misses + experiments.length ∧
    ∃ asked, asked.Sublist experiments ∧
      after.asked = before.asked ++ asked ∧
        after.misses = before.misses + asked.length

/-- Whether a tally follows from another one when the catalog was asked for each
of some experiments. -/
def Tally.Asks (before : Tally) (experiments : List String)
    (after : Tally) : Prop :=
  after.asked = before.asked ++ experiments

namespace Tally.Asks

theorem nothing (before : Tally) : before.Asks [] before :=
  (List.append_nil _).symm

theorem trans
    {before between after : Tally} {earlier later : List String}
    (first : before.Asks earlier between)
    (second : between.Asks later after) :
    before.Asks (earlier ++ later) after := by
  unfold Asks at first second ⊢
  rw [second, first, List.append_assoc]

end Tally.Asks

namespace Tally.Counts

theorem nothing (before : Tally) : before.Counts [] before :=
  ⟨rfl, [], List.Sublist.slnil, (List.append_nil _).symm, rfl⟩

theorem hit (before : Tally) (identifier : String) :
    before.Counts [identifier] { before with hits := before.hits + 1 } := by
  refine ⟨?_, [], List.nil_sublist _, (List.append_nil _).symm, rfl⟩
  simp only [List.length_singleton]
  omega

theorem missed (before : Tally) (identifier : String) :
    before.Counts [identifier]
      { before with
        misses := before.misses + 1
        asked := before.asked ++ [identifier] } :=
  ⟨rfl, [identifier], List.Sublist.refl _, rfl, rfl⟩

theorem trans
    {before between after : Tally} {earlier later : List String}
    (first : before.Counts earlier between)
    (second : between.Counts later after) :
    before.Counts (earlier ++ later) after := by
  obtain ⟨firstTotal, firstAsked, firstAmong, firstLookups, firstMisses⟩ :=
    first
  obtain ⟨secondTotal, secondAsked, secondAmong, secondLookups, secondMisses⟩ :=
    second
  refine ⟨?_, firstAsked ++ secondAsked, firstAmong.append secondAmong, ?_, ?_⟩
  · rw [List.length_append]
    omega
  · rw [secondLookups, firstLookups, List.append_assoc]
  · rw [List.length_append]
    omega

end Tally.Counts

/-! ## Answers that leave the cache as it should be -/

namespace Steady

/-- The answers to questions about locations, and what they add to the tally. The
cache knows only what the catalog confirms. -/
def accessContract (steady : Steady) : Contract Tally where
  admits _ call :=
    match call with
    | .recallExperiment identifier => fun answer =>
        answer = true → steady.catalog identifier = .answered true
    | .lookUpExperiment identifier => fun answer =>
        answer = steady.catalog identifier
    | .authorize location principal => fun answer =>
        answer = steady.authorizer location principal
    | _ => fun _ => True
  demands _ call :=
    match call with
    | .rememberExperiment identifier =>
        steady.catalog identifier = .answered true
    | _ => True
  next tally call answer :=
    match call, answer with
    | .recallExperiment _, true => { tally with hits := tally.hits + 1 }
    | .recallExperiment _, false => { tally with misses := tally.misses + 1 }
    | .lookUpExperiment identifier, _ =>
        { tally with asked := tally.asked ++ [identifier] }
    | _, _ => tally

def permission (steady : Steady) (location : TraceLocation)
    (principal : Option String) : Except ServiceError Unit :=
  match steady.authorizer location principal with
  | .answered true => .ok ()
  | .answered false => .error (.permissionDenied principal location)
  | .failed error => .error (.collaborator .authorizeWrite error)
  | .stalled => .error (.timeout .authorizeWrite)

def target (steady : Steady) :
    TraceLocation → Except ServiceError LocationTarget
  | .experiment identifier => do
      steady.verdict identifier
      return .experiment identifier
  | .inferenceTable fullName =>
      match TraceLocation.tableName? fullName with
      | some name => return .table name
      | none => .error (.rejected [.invalidLocation (.badTableName fullName)])

/-- What comes of resolving a location, by what both say. -/
def resolve (steady : Steady) (location : TraceLocation)
    (principal : Option String) : Except ServiceError ResolvedLocation := do
  let target ← steady.target location
  steady.permission location principal
  return ⟨location, target⟩

def reply (steady : Steady) :
    Access.Question → Except ServiceError (Option ResolvedLocation)
  | .resolve location principal => do
      let resolved ← steady.resolve location principal
      return some resolved
  | .authorize location principal => do
      steady.permission location principal
      return none

end Steady

namespace Steady

open Attempt

variable {steady : Steady} {counts : Tally → Prop} {before : Tally}

theorem governs_accessContract : steady.Governs steady.accessContract where
  recalling := ⟨trivial, fun confirmed => confirmed rfl⟩
  lookingUp := ⟨trivial, fun _ same => same⟩
  remembering := id

/-- An experiment that exists goes into the cache, whatever the authorizer says
afterwards. -/
theorem endsIn_requireExperiment (before : Tally) (identifier : String) :
    EndsIn steady.accessContract (before.Counts [identifier])
      (steady.verdict identifier) before
      (Access.requireExperiment identifier) :=
  governs_accessContract.endsIn_requireExperiment (.hit before identifier)
    (.missed before identifier) fun _ counted => counted

theorem endsIn_confirmExperiment (before : Tally) (identifier : String) :
    EndsIn steady.accessContract (before.Asks [identifier])
      (steady.verdict identifier) before
      (Access.confirmExperiment identifier) :=
  governs_accessContract.endsIn_lookUp rfl fun _ => endsIn_settled rfl

theorem endsIn_authorize
    (location : TraceLocation) (principal : Option String)
    (counted : counts before) :
    EndsIn steady.accessContract counts (steady.permission location principal)
      before (Access.authorize location principal) := by
  unfold EndsIn Access.authorize permission
  rw [keeps_bind, keeps_calling]
  refine ⟨trivial, ?_⟩
  rintro answer rfl
  cases steady.authorizer location principal with
  | answered allowed =>
      cases allowed with
      | true => exact endsIn_settled counted
      | false => exact endsIn_settled counted
  | failed error => exact ⟨counted, rfl⟩
  | stalled => exact ⟨counted, rfl⟩

theorem endsIn_inferenceTable
    (fullName : String) (counted : counts before) :
    EndsIn steady.accessContract counts
      (steady.target (.inferenceTable fullName)) before
      (Access.target (.inferenceTable fullName)) := by
  simp only [Access.target, target]
  cases TraceLocation.tableName? fullName with
  | none => exact endsIn_settled counted
  | some name => exact endsIn_settled counted

/-- What follows without asking the catalog adds nothing to the tally. -/
theorem endsIn_bind_counted
    {Value Next : Type} {result : Except ServiceError Value}
    {follow : Value → Except ServiceError Next} {attempt : Attempt Value}
    {next : Value → Attempt Next}
    (first : EndsIn steady.accessContract counts result before attempt)
    (second :
      ∀ value after, counts after →
        EndsIn steady.accessContract counts (follow value) after
          (next value)) :
    EndsIn steady.accessContract counts (result >>= follow) before
      (attempt >>= next) :=
  endsIn_bind follow first (fun value after _ => second value after)
    fun _ _ _ counted => counted

theorem endsIn_resolve
    {location : TraceLocation} {settle : Attempt LocationTarget}
    (settled :
      EndsIn steady.accessContract counts (steady.target location) before
        settle)
    (principal : Option String) :
    EndsIn steady.accessContract counts
      (steady.reply (.resolve location principal)) before
      (do
        let resolved ←
          (do
            let target ← settle
            Access.authorize location principal
            return (⟨location, target⟩ : ResolvedLocation))
        return some resolved) := by
  apply endsIn_bind_counted
  · apply endsIn_bind_counted settled
    intro target between counted
    apply endsIn_bind_counted (endsIn_authorize location principal counted)
    intro _ after counted
    exact endsIn_settled counted
  · intro resolved after counted
    exact endsIn_settled counted

theorem endsIn_attempt (before : Tally) (question : Access.Question) :
    EndsIn steady.accessContract (before.Counts question.experiments)
      (steady.reply question) before question.attempt := by
  cases question with
  | resolve location principal =>
      apply endsIn_resolve
      cases location with
      | experiment identifier =>
          apply endsIn_bind_counted (endsIn_requireExperiment before identifier)
          intro _ after counted
          exact endsIn_settled counted
      | inferenceTable fullName =>
          exact endsIn_inferenceTable fullName (.nothing before)
  | authorize location principal =>
      apply endsIn_bind_counted
      · exact endsIn_authorize location principal (.nothing before)
      · intro _ after counted
        exact endsIn_settled counted

theorem endsIn_confirmation (before : Tally) (question : Access.Question) :
    EndsIn steady.accessContract (before.Asks question.experiments)
      (steady.reply question) before question.confirmation := by
  cases question with
  | resolve location principal =>
      apply endsIn_resolve
      cases location with
      | experiment identifier =>
          apply endsIn_bind_counted (endsIn_confirmExperiment before identifier)
          intro _ after asked
          exact endsIn_settled asked
      | inferenceTable fullName =>
          exact endsIn_inferenceTable fullName (.nothing before)
  | authorize location principal =>
      apply endsIn_bind_counted
      · exact endsIn_authorize location principal (.nothing before)
      · intro _ after asked
        exact endsIn_settled asked

end Steady

/-! ## Visits one after another -/

namespace Steady

variable {steady : Steady} {world : World}

theorem Confirms.forget
    (confirms : steady.Confirms world.cache) (forgets : String → Bool) :
    steady.Confirms (world.forget forgets).cache := by
  intro identifier known
  exact confirms identifier ((List.mem_filter.mp known).1)

theorem tally_of_apart
    {call : Call} {world : World} {conditions : Conditions} {deadline : Nat}
    (apart : call.isAboutExperiments = false) :
    (world.answer conditions deadline call).1.tally = world.tally := by
  obtain ⟨sameCache, sameLookups⟩ :=
    @World.apart_answer world conditions deadline call apart
  unfold World.tally
  rw [sameCache, sameLookups]

theorem tally_answer
    (steady : Steady) (world : World) (conditions : Conditions) (deadline : Nat)
    (call : Call) :
    (world.answer conditions deadline call).1.tally =
      steady.accessContract.next world.tally call
        (world.answer conditions deadline call).2 := by
  cases call with
  | recallExperiment identifier =>
      simp only [World.answer, ExperimentCache.consult]
      split
      · rfl
      · rfl
  | lookUpExperiment identifier =>
      simp only [World.tally, World.answer, World.awaited_cache,
        World.awaited_lookups, accessContract]
  | rememberExperiment identifier => rfl
  | _ => exact tally_of_apart (by rfl)

theorem admits_access
    (confirms : steady.Confirms world.cache) (tally : Tally) (deadline : Nat)
    (call : Call) :
    steady.accessContract.admits tally call
      (world.answer steady.conditions deadline call).2 := by
  cases call with
  | recallExperiment identifier =>
      exact fun recalled =>
        confirms identifier (World.known_of_recalled recalled)
  | lookUpExperiment identifier => exact World.answer_lookUp identifier
  | authorize location principal =>
      exact World.answer_authorize location principal
  | _ => trivial

/-- A program that keeps the contract ends as it should, whatever the cache lets
go between its calls. -/
theorem runForgetting_of_keeps
    {Result : Type} {ends : Tally → Result → Prop} {program : Program Result}
    {world : World}
    (keeps : program.Keeps steady.accessContract ends world.tally)
    (confirms : steady.Confirms world.cache) (deadline : Nat)
    (forgets : Nat → String → Bool) :
    let outcome :=
      program.runForgetting steady.conditions deadline forgets world
    ends outcome.1.tally outcome.2 ∧ steady.Confirms outcome.1.cache := by
  induction program generalizing world forgets with
  | done result =>
      rw [Program.keeps_done] at keeps
      exact ⟨keeps, confirms⟩
  | step call resume inductionHypothesis =>
      rw [Program.keeps_step] at keeps
      obtain ⟨demanded, afterwards⟩ := keeps
      have stillConfirms := confirms.forget (forgets 0)
      have keepsNext :=
        afterwards _ (admits_access stillConfirms world.tally deadline call)
      have confirmsNext :
          steady.Confirms
            ((world.forget (forgets 0)).answer steady.conditions deadline
              call).1.cache := by
        apply confirms_answer stillConfirms
        rintro identifier rfl
        exact demanded
      -- What the cache lets go does not count.
      have sameTally : (world.forget (forgets 0)).tally = world.tally := rfl
      rw [← sameTally, ← tally_answer steady] at keepsNext
      exact inductionHypothesis _ keepsNext confirmsNext _

theorem runForgetting_of_endsIn
    {Value : Type} {attempt : Attempt Value} {counts : Tally → Prop}
    {result : Except ServiceError Value} {world : World}
    (endsIn :
      attempt.EndsIn steady.accessContract counts result world.tally)
    (confirms : steady.Confirms world.cache) (deadline : Nat)
    (forgets : Nat → String → Bool) :
    let outcome :=
      attempt.run.runForgetting steady.conditions deadline forgets world
    outcome.2 = result ∧ counts outcome.1.tally ∧
      steady.Confirms outcome.1.cache := by
  intro outcome
  obtain ⟨ended, stillConfirms⟩ :=
    runForgetting_of_keeps (Attempt.keeps_iff.mp endsIn) confirms deadline
      forgets
  change Attempt.MayEnd _ _ outcome.1.tally outcome.2 at ended
  cases isResult : outcome.2 with
  | error error =>
      rw [isResult] at ended
      exact ⟨ended.2, ended.1, stillConfirms⟩
  | ok value =>
      rw [isResult] at ended
      exact ⟨ended.2, ended.1, stillConfirms⟩

end Steady

namespace Access

variable {catalog : String → Outcome CollaboratorError Bool} {world : World}

def experimentsOf (visits : List Visit) : List String :=
  visits.flatMap fun visit => visit.question.experiments

/-- Replies to visits one after another, with what is counted together. -/
theorem visitAll_of_endsIn
    {answer : Question → Attempt (Option ResolvedLocation)}
    {counts : Tally → List String → Tally → Prop}
    (nothing : ∀ tally, counts tally [] tally)
    (trans :
      ∀ {before between after earlier later},
        counts before earlier between → counts between later after →
          counts before (earlier ++ later) after)
    (endsIn :
      ∀ (visit : Visit) (before : Tally),
        (answer visit.question).EndsIn (visit.steady catalog).accessContract
          (counts before visit.question.experiments)
          ((visit.steady catalog).reply visit.question) before)
    (confirmed :
      ∀ identifier ∈ world.cache.known,
        catalog identifier = .answered true)
    (visits : List Visit) :
    let outcome := visitAll answer catalog visits world
    outcome.2 =
        visits.map (fun visit =>
          (visit.steady catalog).reply visit.question) ∧
      counts world.tally (experimentsOf visits) outcome.1.tally ∧
        ∀ identifier ∈ outcome.1.cache.known,
          catalog identifier = .answered true := by
  induction visits generalizing world with
  | nil => exact ⟨rfl, nothing _, confirmed⟩
  | cons visit rest inductionHypothesis =>
      obtain ⟨isReply, counted, stillConfirmed⟩ :=
        Steady.runForgetting_of_endsIn (endsIn visit world.tally)
          confirmed (world.clock + visit.timeout) visit.forgets
      obtain ⟨areReplies, countedRest, confirmedRest⟩ :=
        inductionHypothesis stillConfirmed
      refine ⟨?_, trans counted countedRest, confirmedRest⟩
      rw [List.map_cons, ← areReplies, ← isReply]
      rfl

/-- Whatever the cache lets go, all questions are answered as they are when the
catalog is asked every time. What the cache knows in the end the catalog
confirms. Each question whether an experiment exists is a hit or a miss, and
there is one question to the catalog for each miss. -/
theorem cache_transparent
    (catalog : String → Outcome CollaboratorError Bool) (ids : IdSequence)
    (visits : List Visit) :
    let cached :=
      visitAll Question.attempt catalog visits (World.initial ids)
    let uncached :=
      visitAll Question.confirmation catalog visits (World.initial ids)
    (cached.2 = uncached.2 ∧
        uncached.1.lookups = experimentsOf visits) ∧
      (∀ identifier ∈ cached.1.cache.known,
        catalog identifier = .answered true) ∧
        cached.1.cache.hits + cached.1.cache.misses =
          (experimentsOf visits).length ∧
          cached.1.lookups.Sublist (experimentsOf visits) ∧
            cached.1.lookups.length = cached.1.cache.misses := by
  intro cached uncached
  have confirmed :
      ∀ identifier ∈ (World.initial ids).cache.known,
        catalog identifier = .answered true :=
    List.forall_mem_nil _
  obtain ⟨areReplies, ⟨total, asked, among, areAsked, areMisses⟩, known⟩ :=
    visitAll_of_endsIn Tally.Counts.nothing Tally.Counts.trans
      (fun visit before => Steady.endsIn_attempt before visit.question)
      confirmed visits
  obtain ⟨areConfirmed, allAsked, _⟩ :=
    visitAll_of_endsIn Tally.Asks.nothing Tally.Asks.trans
      (fun visit before => Steady.endsIn_confirmation before visit.question)
      confirmed visits
  have isLookups : cached.1.lookups = asked := areAsked
  refine ⟨⟨areReplies.trans areConfirmed.symm, allAsked⟩, known, ?_, ?_, ?_⟩
  · exact total.trans (Nat.zero_add _)
  · rw [isLookups]
    exact among
  · rw [isLookups]
    exact (Nat.zero_add _).symm.trans areMisses.symm

/-- An experiment is looked up again only after the cache let it go, also when
its client may not write. -/
example :
    let location := TraceLocation.experiment "42"
    let visits : List Visit :=
      [{ question := .resolve location none
         authorizer := fun _ _ => .answered false },
       { question := .resolve location none },
       { question := .resolve location none
         forgets := fun index _ => index = 0 }]
    let reached :=
      (visitAll Question.attempt (fun _ => .answered true) visits
        (World.initial (.start 0))).1
    reached.cache = ⟨["42"], 1, 2⟩ ∧ reached.lookups = ["42", "42"] := by
  decide +kernel

end Access

end TraceArchive
