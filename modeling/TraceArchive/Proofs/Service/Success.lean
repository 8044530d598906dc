import TraceArchive.Proofs.Service.Submission
import TraceArchive.Proofs.Service.Traffic

/-!
# Requests that succeed

When nobody else writes, no call of it is kept from being answered, and its
location is known and open to its client, a submission that fits the stored trace
succeeds. The main statement is `World.Admits.runWithin_submit`.
-/

namespace TraceArchive

/-! ## Answers in a world that admits a submission -/

/-- Whether nothing keeps a client from writing the trace with an identifier to
a location: its record can be read and written, the location exists as far as
the cache or the catalog knows, and the authorizer agrees. -/
structure World.Admits (world : World) (conditions : Conditions) (id : String)
    (location : TraceLocation) (principal : Option String) : Prop where
  readable : conditions.reading id = none
  writable : conditions.writing id = none
  located :
    ∀ identifier, location = .experiment identifier →
      identifier ∈ world.cache.known ∨
        conditions.catalog identifier = .answered true
  authorized : conditions.authorizer location principal = .answered true

/-- The answers to a request that runs alone under some conditions, when the
cache knows some experiments. -/
def Conditions.contract (conditions : Conditions) (known : List String) :
    Contract TraceStore where
  admits store call :=
    match call with
    | .readTrace id => fun answer =>
        conditions.reading id = none → answer = .answered (store.get? id)
    | .recallExperiment identifier => fun answer =>
        identifier ∈ known → answer = true
    | .lookUpExperiment identifier => fun answer =>
        answer = conditions.catalog identifier
    | .authorize location principal => fun answer =>
        answer = conditions.authorizer location principal
    | .replaceTrace id expected trace => fun answer =>
        conditions.writing id = none →
          answer = .ofExcept (store.compareAndSwap id expected trace).2
    | _ => fun _ => True
  demands _ _ := True
  next := TraceStore.after

namespace World

variable {world : World} {conditions : Conditions} {deadline : Nat}

/-- No call makes the cache forget an experiment. -/
theorem known_of_known
    {identifier : String} (known : identifier ∈ world.cache.known)
    (call : Call) :
    identifier ∈ (world.answer conditions deadline call).1.cache.known := by
  cases call with
  | allocateId =>
      simp only [answer, allocate]
      split <;> simpa using known
  | readTrace id =>
      simp only [answer, read]
      split <;> simpa using known
  | recallExperiment asked =>
      simp only [answer, ExperimentCache.consult]
      split <;> exact known
  | lookUpExperiment asked => simpa [answer] using known
  | rememberExperiment remembered => exact List.mem_cons_of_mem _ known
  | authorize location principal => simpa [answer] using known
  | createTrace trace =>
      simp only [answer, write]
      split <;> simpa using known
  | replaceTrace id expected trace =>
      simp only [answer, write]
      split <;> simpa using known

theorem admits_answer
    {known : List String} (isKnown : known ⊆ world.cache.known)
    (call : Call) :
    (conditions.contract known).admits world.store call
      (world.answer conditions.alone deadline call).2 := by
  cases call with
  | readTrace id =>
      intro readable
      simp only [answer, read, Conditions.alone, readable]
  | recallExperiment identifier =>
      intro member
      have contained : world.cache.known.contains identifier = true :=
        List.contains_iff_mem.mpr (isKnown member)
      simp only [answer, ExperimentCache.consult, contained, if_true]
  | lookUpExperiment identifier => exact answer_lookUp identifier
  | authorize location principal => exact answer_authorize location principal
  | replaceTrace id expected trace =>
      intro writable
      simp only [answer, write, Conditions.alone, writable]
      rfl
  | _ => trivial

end World

/-! ## Attempts that end well -/

namespace Attempt

variable {Value Next : Type} {conditions : Conditions} {known : List String}
  {store between after : TraceStore}

/-- Whether an attempt that runs alone ends with this value and leaves this
store. -/
def EndsWell (conditions : Conditions) (known : List String)
    (store after : TraceStore) (value : Value) (attempt : Attempt Value) :
    Prop :=
  Keeps (conditions.contract known)
    (fun left answer => left = after ∧ answer = value) (fun _ _ => False) store
    attempt

theorem endsWell_pure (value : Value) :
    EndsWell conditions known store store value (pure value) :=
  keeps_pure.mpr ⟨rfl, rfl⟩

theorem endsWell_settled
    {result : Except ServiceError Value} {value : Value}
    (isOk : result = .ok value) :
    EndsWell conditions known store store value (settled result) := by
  rw [isOk]
  exact endsWell_pure value

theorem endsWell_bind
    {attempt : Attempt Value} {next : Value → Attempt Next} {value : Value}
    {result : Next}
    (first : EndsWell conditions known store between value attempt)
    (second :
      EndsWell conditions known between after result (next value)) :
    EndsWell conditions known store after result (attempt >>= next) := by
  unfold EndsWell
  rw [keeps_bind]
  refine Keeps.imp first ?_ fun _ _ => id
  rintro left answer ⟨rfl, rfl⟩
  exact second

theorem endsWell_calling
    {call : Call} {settle : call.Answer → Except ServiceError Value}
    {value : Value}
    (settles :
      ∀ answer, (conditions.contract known).admits store call answer →
        settle answer = .ok value ∧ store.after call answer = after) :
    EndsWell conditions known store after value (calling call settle) := by
  unfold EndsWell
  rw [keeps_calling]
  refine ⟨trivial, ?_⟩
  intro answer admitted
  obtain ⟨isOk, left⟩ := settles answer admitted
  rw [isOk]
  exact ⟨left, rfl⟩

/-- What an attempt keeps to holds of it in every world in which it runs
alone. -/
theorem Keeps.runWithin
    {ok : TraceStore → Value → Prop} {failed : TraceStore → ServiceError → Prop}
    {attempt : Attempt Value} {world : World}
    (keeps :
      Keeps (conditions.contract world.cache.known) ok failed world.store
        attempt)
    (timeout : Nat) :
    let outcome := attempt.run.runWithin conditions.alone timeout world
    MayEnd ok failed outcome.1.store outcome.2 := by
  intro outcome
  have step :
      ∀ (store : TraceStore) (before : World) (call : Call),
        before.store = store ∧ world.cache.known ⊆ before.cache.known →
          True →
            let next :=
              (before.answer conditions.alone (world.clock + timeout) call).1
            let answer :=
              (before.answer conditions.alone (world.clock + timeout) call).2
            (conditions.contract world.cache.known).admits store call answer ∧
              next.store = store.after call answer ∧
                world.cache.known ⊆ next.cache.known := by
    rintro _ before call ⟨rfl, isKnown⟩ _
    refine ⟨World.admits_answer isKnown call, World.store_answer call, ?_⟩
    intro identifier member
    exact World.known_of_known (isKnown member) call
  obtain ⟨last, ⟨left, _⟩, ended⟩ :=
    (keeps_iff.mp keeps).runUntil _ ⟨rfl, List.Subset.refl _⟩ step
  have isLast : outcome.1.store = last := left
  rw [isLast]
  exact ended

/-- An attempt that ends well does so in every world in which it runs alone. -/
theorem EndsWell.runWithin
    {attempt : Attempt Value} {value : Value} {world : World}
    (ends :
      EndsWell conditions world.cache.known world.store after value attempt)
    (timeout : Nat) :
    let outcome := attempt.run.runWithin conditions.alone timeout world
    outcome.2 = .ok value ∧ outcome.1.store = after := by
  intro outcome
  have ended : MayEnd _ _ outcome.1.store outcome.2 :=
    Keeps.runWithin ends timeout
  cases isResult : outcome.2 with
  | error error =>
      rw [isResult] at ended
      exact ended.elim
  | ok answer =>
      rw [isResult] at ended
      obtain ⟨rfl, rfl⟩ := ended
      exact ⟨rfl, rfl⟩

/-! ## Calls that nothing keeps from being answered -/

theorem endsWell_read
    {id : String} (readable : conditions.reading id = none) :
    EndsWell conditions known store store (store.get? id)
      (Service.read id) := by
  refine endsWell_calling fun answer admitted => ?_
  rw [admitted readable]
  exact ⟨rfl, rfl⟩

theorem endsWell_authorize
    {location : TraceLocation} {principal : Option String}
    (authorized : conditions.authorizer location principal = .answered true) :
    EndsWell conditions known store store ()
      (Access.authorize location principal) := by
  refine @endsWell_bind _ _ _ _ store store store _ _ true () ?_ ?_
  · refine endsWell_calling fun answer admitted => ?_
    have isAuthorizer :
        answer = conditions.authorizer location principal := admitted
    rw [isAuthorizer, authorized]
    exact ⟨rfl, rfl⟩
  · exact endsWell_pure ()

theorem endsWell_replace
    {id : String} (writable : conditions.writing id = none)
    {record : StoredTrace} (stored : store.get? id = some record)
    (isNumbered : 1 ≤ record.version) {trace : Trace} (named : trace.id = id)
    (operation : Operation) :
    EndsWell conditions known store (store.put ⟨trace, record.version + 1⟩)
      ⟨trace, record.version + 1⟩
      (Service.replace operation id record trace) := by
  have isWritten :
      store.written? id record.version trace =
        .ok ⟨trace, record.version + 1⟩ := by
    refine TraceStore.written?_eq_ok_iff.mpr ⟨named, ?_, rfl⟩
    rw [stored]
    exact ⟨Nat.one_le_iff_ne_zero.mp isNumbered, rfl⟩
  refine endsWell_calling fun answer admitted => ?_
  have isAnswer :
      answer = .ofExcept (store.compareAndSwap id record.version trace).2 :=
    admitted writable
  rw [isAnswer]
  simp only [TraceStore.compareAndSwap, TraceStore.write, isWritten,
    TraceStore.after, Outcome.ofExcept, Outcome.within, and_self]

end Attempt

/-! ## Locations -/

namespace World.Admits

open Attempt

variable {world : World} {conditions : Conditions} {id : String}
  {location : TraceLocation} {principal : Option String} {store : TraceStore}

theorem endsWell_requireExperiment
    {identifier : String}
    (admits :
      world.Admits conditions id (.experiment identifier) principal) :
    EndsWell conditions world.cache.known store store ()
      (Access.requireExperiment identifier) := by
  unfold EndsWell Access.requireExperiment
  rw [keeps_bind, keeps_calling]
  refine ⟨trivial, ?_⟩
  rintro (_ | _) recalled
  · have exists' : conditions.catalog identifier = .answered true := by
      rcases admits.located identifier rfl with isKnown | exists'
      · cases recalled isKnown
      · exact exists'
    change EndsWell conditions world.cache.known store store ()
      (Access.lookUp identifier >>= _)
    refine @endsWell_bind _ _ _ _ store store store _ _ true () ?_ ?_
    · refine endsWell_calling fun answer admitted => ?_
      have isCatalog : answer = conditions.catalog identifier := admitted
      rw [isCatalog, exists']
      exact ⟨rfl, rfl⟩
    · exact endsWell_calling fun _ _ => ⟨rfl, rfl⟩
  · exact endsWell_pure ()

theorem endsWell_resolve
    (admits : world.Admits conditions id location principal)
    (canonical : Check.Canonical location) :
    ∃ resolved,
      EndsWell conditions world.cache.known store store resolved
        (Access.resolve location principal) := by
  have ofTarget :
      ∃ target,
        EndsWell conditions world.cache.known store store target
          (Access.target location) := by
    cases location with
    | experiment identifier =>
        exact
          ⟨.experiment identifier,
            endsWell_bind admits.endsWell_requireExperiment
              (endsWell_pure _)⟩
    | inferenceTable fullName =>
        obtain ⟨name, isName⟩ := Check.tableName?_of_canonical canonical
        refine ⟨.table name, ?_⟩
        simp only [Access.target, isName]
        exact endsWell_pure _
  obtain ⟨target, isTarget⟩ := ofTarget
  refine ⟨⟨location, target⟩, ?_⟩
  refine endsWell_bind isTarget ?_
  exact
    endsWell_bind (endsWell_authorize admits.authorized) (endsWell_pure _)

/-! ## Submissions that fit a stored trace -/

/-- A submission that fits the stored trace replaces it by what follows from
both, with the next version. -/
theorem runWithin_submit
    (admits : world.Admits conditions id location principal)
    {settings : Settings} {message : Wire.Trace} {submission : Submission}
    (accepted : Submission.ofRequest settings message = .ok submission)
    (named : submission.traceId? = some id)
    (own : submission.foreignSpans id = [])
    (located : submission.info.location = location)
    {record : StoredTrace} (stored : world.store.get? id = some record)
    (isNumbered : 1 ≤ record.version)
    (updatable :
      Submission.checkUpdatable record.trace.info submission.info = .ok ())
    {trace : Trace}
    (isResult :
      submission.result settings (some record.trace) id = .ok trace)
    (timeout : Nat) :
    let outcome :=
      (Service.submit settings principal message).run.runWithin
        conditions.alone timeout world
    outcome.2 = .ok trace ∧
      outcome.1.store = world.store.put ⟨trace, record.version + 1⟩ := by
  have canonical : Check.Canonical location := by
    rw [← located]
    exact Submission.canonical_of_accepted accepted
  obtain ⟨resolved, isResolved⟩ :=
    @endsWell_resolve _ _ _ _ _ world.store admits canonical
  have settled :
      EndsWell conditions world.cache.known world.store world.store id
        (Service.settleId submission) := by
    unfold Service.settleId
    rw [named]
    exact endsWell_pure id
  have required :
      EndsWell conditions world.cache.known world.store world.store ()
        (require (submission.foreignSpans id)) := by
    rw [own]
    exact endsWell_pure ()
  have replaced :=
    @endsWell_replace _ world.cache.known _ _ admits.writable _ stored
      isNumbered _ (Submission.id_of_result isResult) .updateTrace
  refine EndsWell.runWithin ?_ timeout
  refine endsWell_bind (endsWell_settled accepted) ?_
  refine endsWell_bind settled ?_
  refine endsWell_bind required ?_
  refine endsWell_bind (endsWell_read admits.readable) ?_
  rw [stored]
  refine endsWell_bind (endsWell_settled updatable) ?_
  rw [located]
  refine endsWell_bind isResolved ?_
  refine endsWell_bind (endsWell_settled isResult) ?_
  exact endsWell_bind replaced (endsWell_pure trace)

end World.Admits

end TraceArchive
