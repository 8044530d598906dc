import TraceArchive.Proofs.Service.Composition

/-!
# Requests that run alone

A request that runs alone, with nothing failing meanwhile, ends in a way that
depends on the store, the source of identifiers, the catalog and the authorizer
only: the cache may spare a question to the catalog but does not change the
outcome.
-/

namespace TraceArchive

/-- A catalog and an authorizer that answer the same question always in the
same way. -/
structure Steady where
  catalog : String → Outcome CollaboratorError Bool
  authorizer : TraceLocation → Option String → Outcome CollaboratorError Bool

/-- The store and the source of identifiers while a request runs alone. -/
structure Session where
  store : TraceStore
  ids : IdSequence

namespace Session

/-- The store and the source of identifiers after a call. -/
def next (session : Session) (call : Call) (answer : call.Answer) :
    Session where
  store := session.store.after call answer
  ids :=
    match call with
    | .allocateId => session.ids.allocate.1
    | _ => session.ids

end Session

namespace Steady

/-- The conditions under which nothing fails. -/
def conditions (steady : Steady) : Conditions where
  catalog := steady.catalog
  authorizer := steady.authorizer

/-- The answers to a request that runs alone. Whether the cache knows an
experiment is left open; it knows none that the catalog does not confirm. -/
def contract (steady : Steady) : Contract Session where
  admits session call :=
    match call with
    | .allocateId => fun answer => answer = .ofExcept session.ids.allocate.2
    | .readTrace id => fun answer => answer = .answered (session.store.get? id)
    | .recallExperiment identifier => fun answer =>
        answer = true → steady.catalog identifier = .answered true
    | .lookUpExperiment identifier => fun answer =>
        answer = steady.catalog identifier
    | .rememberExperiment _ => fun _ => True
    | .authorize location principal => fun answer =>
        answer = steady.authorizer location principal
    | .createTrace trace => fun answer =>
        answer = .ofExcept (session.store.create trace).2
    | .replaceTrace id expected trace => fun answer =>
        answer = .ofExcept (session.store.compareAndSwap id expected trace).2
  demands _ call :=
    match call with
    | .rememberExperiment identifier =>
        steady.catalog identifier = .answered true
    | _ => True
  next := Session.next

/-- Whether the catalog confirms all experiments that a cache knows. -/
def Confirms (steady : Steady) (cache : ExperimentCache) : Prop :=
  ∀ identifier ∈ cache.known, steady.catalog identifier = .answered true

end Steady

/-! ## Attempts with one outcome -/

namespace Attempt

variable {Value Next : Type} {steady : Steady} {session : Session}

/-- Whether an attempt that runs alone always ends with this result and leaves
this session. -/
def EndsAs (steady : Steady) (session after : Session)
    (result : Except ServiceError Value) (attempt : Attempt Value) : Prop :=
  Keeps steady.contract (fun known value => known = after ∧ .ok value = result)
    (fun known error => known = after ∧ .error error = result) session attempt

/-- Whether there is such an end in every session. -/
def Settles (steady : Steady) (attempt : Attempt Value) : Prop :=
  ∀ session, ∃ after result, EndsAs steady session after result attempt

theorem settles_settled (result : Except ServiceError Value) :
    Settles steady (settled result) := by
  intro session
  exact ⟨session, result, endsIn_settled rfl⟩

theorem settles_bind
    {attempt : Attempt Value} {next : Value → Attempt Next}
    (first : Settles steady attempt)
    (second : ∀ value, Settles steady (next value)) :
    Settles steady (attempt >>= next) := by
  intro session
  obtain ⟨between, result, ends⟩ := first session
  cases result with
  | error error =>
      refine ⟨between, .error error, ?_⟩
      exact
        endsIn_bind (fun _ => .error error) ends nofun
          fun _ _ _ reached => reached
  | ok value =>
      obtain ⟨after, result, endsNext⟩ := second value between
      refine ⟨after, result, ?_⟩
      refine endsIn_bind (fun _ => result) ends ?_ nofun
      rintro _ _ ⟨⟩ rfl
      exact endsNext

/-- A call settles if only one answer is possible. -/
theorem settles_calling
    {call : Call} {settle : call.Answer → Except ServiceError Value}
    (demanded : ∀ session, steady.contract.demands session call)
    (determined :
      ∀ session, ∃ answer, ∀ given,
        steady.contract.admits session call given → given = answer) :
    Settles steady (calling call settle) := by
  intro session
  obtain ⟨answer, isAnswer⟩ := determined session
  exact
    ⟨session.next call answer, settle answer,
      endsIn_calling (demanded session) isAnswer rfl⟩

end Attempt

/-! ## Requests have one outcome -/

namespace Steady

open Attempt

variable {steady : Steady}

/-- What the catalog says about an experiment that a request needs. -/
def verdict (steady : Steady) (identifier : String) :
    Except ServiceError Unit :=
  match steady.catalog identifier with
  | .answered true => .ok ()
  | .answered false =>
      .error (.rejected [.invalidLocation (.unknownExperiment identifier)])
  | .failed error => .error (.collaborator .lookUpExperiment error)
  | .stalled => .error (.timeout .lookUpExperiment)

/-- Whether a contract admits what the catalog answers, and that the cache knows
of an experiment only what the catalog confirms. -/
structure Governs (steady : Steady) {Ghost : Type}
    (contract : Contract Ghost) : Prop where
  recalling :
    ∀ {ghost identifier},
      contract.demands ghost (.recallExperiment identifier) ∧
        (contract.admits ghost (.recallExperiment identifier) true →
          steady.catalog identifier = .answered true)
  lookingUp :
    ∀ {ghost identifier},
      contract.demands ghost (.lookUpExperiment identifier) ∧
        ∀ answer, contract.admits ghost (.lookUpExperiment identifier) answer →
          answer = steady.catalog identifier
  remembering :
    ∀ {ghost identifier}, steady.catalog identifier = .answered true →
      contract.demands ghost (.rememberExperiment identifier)

namespace Governs

variable {Ghost : Type} {contract : Contract Ghost} {ends : Ghost → Prop}
  {ghost : Ghost} {identifier : String}

/-- The catalog decides; what is done about an experiment that exists is left
open. -/
theorem endsIn_lookUp
    (governs : steady.Governs contract) {found : Attempt Unit}
    (asked :
      ends
        (contract.next ghost (.lookUpExperiment identifier)
          (steady.catalog identifier)))
    (endsFound :
      steady.catalog identifier = .answered true →
        EndsIn contract ends (.ok ())
          (contract.next ghost (.lookUpExperiment identifier)
            (steady.catalog identifier)) found) :
    EndsIn contract ends (steady.verdict identifier) ghost (do
      let isFound ← Access.lookUp identifier
      if isFound then found
      else
        Attempt.require
          [.invalidLocation (.unknownExperiment identifier)]) := by
  unfold EndsIn Access.lookUp verdict
  rw [keeps_bind, keeps_calling]
  refine ⟨governs.lookingUp.1, ?_⟩
  intro answer admitted
  obtain rfl := governs.lookingUp.2 answer admitted
  cases isVerdict : steady.catalog identifier with
  | answered isFound =>
      rw [isVerdict] at asked endsFound
      cases isFound with
      | true => exact endsFound rfl
      | false => exact endsIn_settled asked
  | failed error =>
      rw [isVerdict] at asked
      exact ⟨asked, rfl⟩
  | stalled =>
      rw [isVerdict] at asked
      exact ⟨asked, rfl⟩

/-- The cache does not matter: what it knows the catalog confirms. -/
theorem endsIn_requireExperiment
    (governs : steady.Governs contract)
    (hit : ends (contract.next ghost (.recallExperiment identifier) true))
    (asked :
      ends
        (contract.next
          (contract.next ghost (.recallExperiment identifier) false)
          (.lookUpExperiment identifier) (steady.catalog identifier)))
    (remembered :
      ∀ known, ends known →
        ends (contract.next known (.rememberExperiment identifier) ())) :
    EndsIn contract ends (steady.verdict identifier) ghost
      (Access.requireExperiment identifier) := by
  unfold EndsIn Access.requireExperiment
  rw [keeps_bind, keeps_calling]
  refine ⟨governs.recalling.1, ?_⟩
  rintro (_ | _) admitted
  · apply governs.endsIn_lookUp asked
    intro confirmed
    exact
      endsIn_calling (governs.remembering confirmed) (fun _ _ => rfl)
        (remembered _ asked)
  · have isVerdict : steady.verdict identifier = .ok () := by
      simp only [verdict, governs.recalling.2 admitted]
    rw [isVerdict]
    exact endsIn_settled hit

end Governs

theorem governs_contract : steady.Governs steady.contract where
  recalling := ⟨trivial, fun confirmed => confirmed rfl⟩
  lookingUp := ⟨trivial, fun _ same => same⟩
  remembering := id

theorem settles_requireExperiment (identifier : String) :
    Settles steady (Access.requireExperiment identifier) := by
  intro session
  refine ⟨session, steady.verdict identifier, ?_⟩
  exact governs_contract.endsIn_requireExperiment rfl rfl fun _ same => same

/-- Apart from the questions about experiments only one answer is possible to
each call. -/
theorem settles_of_isComposed
    {Value : Type} {attempt : Attempt Value} (composed : attempt.IsComposed) :
    Settles steady attempt := by
  induction composed with
  | settled result => exact settles_settled result
  | @calling _ call settle apart =>
      cases call with
      | recallExperiment _ => cases apart
      | lookUpExperiment _ => cases apart
      | rememberExperiment _ => cases apart
      | _ =>
          exact
            settles_calling (fun _ => trivial) fun _ => ⟨_, fun _ same => same⟩
  | requireExperiment identifier => exact settles_requireExperiment identifier
  | bind _ _ first second => exact settles_bind first second

/-- Every request that runs alone has one outcome. -/
theorem settles_attempt (settings : Settings) (request : Request) :
    Settles steady (request.attempt settings) :=
  settles_of_isComposed (request.isComposed_attempt settings)

/-! ## Running alone -/

/-- A call of a request that runs alone is answered as the contract admits. -/
theorem admits_answer
    {world : World} (confirms : steady.Confirms world.cache) (deadline : Nat)
    (call : Call) :
    steady.contract.admits ⟨world.store, world.ids⟩ call
      (world.answer steady.conditions deadline call).2 := by
  cases call with
  | allocateId => rfl
  | readTrace id => rfl
  | recallExperiment identifier =>
      exact fun recalled =>
        confirms identifier (World.known_of_recalled recalled)
  | lookUpExperiment identifier => exact World.answer_lookUp identifier
  | rememberExperiment identifier => trivial
  | authorize location principal =>
      exact World.answer_authorize location principal
  | createTrace trace => rfl
  | replaceTrace id expected trace => rfl

theorem next_answer
    {world : World} (deadline : Nat) (call : Call) :
    Session.next ⟨world.store, world.ids⟩ call
        (world.answer steady.conditions deadline call).2 =
      ⟨(world.answer steady.conditions deadline call).1.store,
        (world.answer steady.conditions deadline call).1.ids⟩ := by
  have sameStore :
      (world.answer steady.conditions deadline call).1.store =
        world.store.after call
          (world.answer steady.conditions deadline call).2 :=
    @World.store_answer world steady.conditions deadline call
  have sameIds :
      (world.answer steady.conditions deadline call).1.ids =
        (Session.next ⟨world.store, world.ids⟩ call
          (world.answer steady.conditions deadline call).2).ids := by
    cases call with
    | allocateId => rfl
    | _ => exact World.ids_answer _ (by simp)
  rw [sameStore, sameIds]
  rfl

theorem confirms_answer
    {world : World} (confirms : steady.Confirms world.cache)
    (conditions : Conditions) (deadline : Nat) (call : Call)
    (demanded :
      ∀ identifier, call = .rememberExperiment identifier →
        steady.catalog identifier = .answered true) :
    steady.Confirms (world.answer conditions deadline call).1.cache := by
  intro identifier known
  rcases World.known_answer known with before | remembered
  · exact confirms identifier before
  · exact demanded identifier remembered

/-- A program that keeps the contract ends as it should when it runs alone. -/
theorem runUntil_of_keeps
    {Result : Type} {ends : Session → Result → Prop} {program : Program Result}
    {world : World}
    (keeps :
      program.Keeps steady.contract ends ⟨world.store, world.ids⟩)
    (confirms : steady.Confirms world.cache) (deadline : Nat) :
    let outcome := program.runUntil steady.conditions deadline world
    ends ⟨outcome.1.store, outcome.1.ids⟩ outcome.2 ∧
      steady.Confirms outcome.1.cache := by
  have step :
      ∀ (session : Session) (before : World) (call : Call),
        session = ⟨before.store, before.ids⟩ ∧
            steady.Confirms before.cache →
          steady.contract.demands session call →
            let next := (before.answer steady.conditions deadline call).1
            let answer := (before.answer steady.conditions deadline call).2
            steady.contract.admits session call answer ∧
              steady.contract.next session call answer =
                  ⟨next.store, next.ids⟩ ∧
                steady.Confirms next.cache := by
    rintro _ before call ⟨rfl, confirmed⟩ demanded
    refine ⟨admits_answer confirmed deadline call, next_answer deadline call,
      ?_⟩
    refine confirms_answer confirmed _ deadline call ?_
    rintro identifier rfl
    exact demanded
  obtain ⟨last, ⟨isLast, confirmed⟩, ended⟩ :=
    keeps.runUntil _ ⟨rfl, confirms⟩ step
  exact ⟨isLast ▸ ended, confirmed⟩

/-- Whether a program that runs alone ends with this result and leaves this
store, and a cache that the catalog confirms. -/
structure RunsTo {Result : Type} (steady : Steady) (program : Program Result)
    (deadline : Nat) (world : World) (store : TraceStore)
    (result : Result) : Prop where
  result : (program.runUntil steady.conditions deadline world).2 = result
  store : (program.runUntil steady.conditions deadline world).1.store = store
  cache : steady.Confirms
    (program.runUntil steady.conditions deadline world).1.cache

/-- If some answers that a request may get when it runs alone lead to a result,
then it has that result whenever it runs alone. -/
theorem runsTo_of_exchanges
    {Value : Type} {attempt : Attempt Value}
    (settles : attempt.Settles steady) {exchanges : List Exchange}
    {result : Except ServiceError Value}
    (reaches : attempt.run.Reaches exchanges (.done result)) {world : World}
    (admitted :
      steady.contract.AdmitsAll ⟨world.store, world.ids⟩ exchanges)
    (confirms : steady.Confirms world.cache) (deadline : Nat) :
    steady.RunsTo attempt.run deadline world
      (steady.contract.follow ⟨world.store, world.ids⟩ exchanges).store
      result := by
  obtain ⟨last, settled, ends⟩ := settles ⟨world.store, world.ids⟩
  have keeps := Attempt.keeps_iff.mp ends
  have followed :
      steady.contract.follow ⟨world.store, world.ids⟩ exchanges = last ∧
        result = settled := by
    have atEnd := Program.keeps_done.mp (keeps.along reaches admitted)
    cases result with
    | error error => exact atEnd
    | ok value => exact atEnd
  obtain ⟨ended, confirmed⟩ := runUntil_of_keeps keeps confirms deadline
  generalize isOutcome :
    attempt.run.runUntil steady.conditions deadline world = outcome
    at ended confirmed
  have alone :
      Session.mk outcome.1.store outcome.1.ids = last ∧
        outcome.2 = settled := by
    cases given : outcome.2 with
    | error error =>
        rw [given] at ended
        exact ended
    | ok value =>
        rw [given] at ended
        exact ended
  rw [followed.1, followed.2, ← alone.1]
  refine ⟨?_, ?_, ?_⟩
  · rw [isOutcome]
    exact alone.2
  · rw [isOutcome]
  · rw [isOutcome]
    exact confirmed

end Steady

end TraceArchive
