import TraceArchive.Proofs.Service.Effects

/-!
# Locality of requests

Of all records a request looks only at that of the trace that it is about. So
worlds that differ in other records alone are the same to it: it is answered the
same and does the same to them. The main statement is `local_of_request`.
-/

namespace TraceArchive

/-! ## Worlds that differ in other records -/

/-- Whether two worlds are the same but for the records of other traces than the
one with an identifier, or for all records, if there is no identifier. -/
structure World.Resembles (subject : Option String) (world other : World) :
    Prop where
  rest : other = { world with store := other.store }
  record :
    ∀ id, subject = some id → other.store.get? id = world.store.get? id

/-- A request may read and write under one identifier only, and if it takes one
from the source, that is the one. The ghost tells whether it may still do so. -/
def localContract (subject : Option String) : Contract Bool where
  admits _ call answer :=
    match call, answer with
    | .allocateId, .answered identifier => subject = some identifier.toHex
    | _, _ => True
  demands mayAllocate call :=
    match call with
    | .allocateId => mayAllocate = true
    | .readTrace id | .replaceTrace id _ _ => subject = some id
    | .createTrace trace => subject = some trace.id
    | _ => True
  next mayAllocate call _ :=
    match call with
    | .allocateId => false
    | _ => mayAllocate

/-- Whether the next identifier of a source, if there is one, is that of the
trace in question. -/
def IdSequence.GivesNext (ids : IdSequence) (subject : Option String) : Prop :=
  ∀ identifier, ids.allocate.2 = .ok identifier →
    subject = some identifier.toHex

theorem TraceStore.write_of_same
    {left right : TraceStore} {id : String}
    (same : left.get? id = right.get? id) (expected : Nat) (trace : Trace) :
    (left.write id expected trace).2 = (right.write id expected trace).2 ∧
      (left.write id expected trace).1.get? id =
        (right.write id expected trace).1.get? id := by
  have sameWritten :
      left.written? id expected trace = right.written? id expected trace := by
    unfold written?
    rw [same]
  unfold write
  rw [sameWritten]
  cases isWritten : right.written? id expected trace with
  | error error => exact ⟨rfl, same⟩
  | ok record =>
      obtain ⟨rfl, _, rfl⟩ := written?_eq_ok_iff.mp isWritten
      refine ⟨rfl, ?_⟩
      exact (get?_put_self left _).trans (get?_put_self right _).symm

namespace World

variable {subject : Option String} {world other : World}
  {conditions : Conditions} {deadline : Nat} {mayAllocate : Bool}

theorem Resembles.awaited
    {Fault Answer : Type} (resembles : Resembles subject world other)
    (outcome : Outcome Fault Answer) :
    Resembles subject (world.awaited deadline outcome).1
      (other.awaited deadline outcome).1 := by
  refine ⟨?_, ?_⟩
  · rw [awaited_store]
    unfold World.awaited
    rw [resembles.rest]
    split
    · rfl
    · rfl
  · rw [awaited_store, awaited_store]
    exact resembles.record

theorem Resembles.write
    {id : String} (resembles : Resembles (some id) world other)
    (expected : Nat) (trace : Trace) :
    (other.write conditions deadline id expected trace).2 =
        (world.write conditions deadline id expected trace).2 ∧
      Resembles (some id)
        (world.write conditions deadline id expected trace).1
        (other.write conditions deadline id expected trace).1 := by
  unfold World.write
  split
  · exact ⟨by simp, resembles.awaited _⟩
  · obtain ⟨sameResult, sameRecord⟩ :=
      TraceStore.write_of_same (resembles.record id rfl) expected trace
    refine ⟨congrArg Outcome.ofExcept sameResult, ?_, ?_⟩
    · rw [resembles.rest]
    · intro asked isSubject
      cases isSubject
      exact sameRecord

/-- A call about the same record is answered the same. -/
theorem Resembles.answer
    (resembles : Resembles subject world other) {call : Call}
    (demanded : (localContract subject).demands mayAllocate call) :
    (other.answer conditions.alone deadline call).2 =
        (world.answer conditions.alone deadline call).2 ∧
      Resembles subject (world.answer conditions.alone deadline call).1
        (other.answer conditions.alone deadline call).1 := by
  have rest := resembles.rest
  cases call with
  | allocateId =>
      simp only [World.answer, World.allocate]
      split
      · exact ⟨by simp, resembles.awaited _⟩
      · rw [rest]
        exact ⟨rfl, rfl, resembles.record⟩
  | readTrace id =>
      simp only [World.answer, World.read]
      split
      · exact ⟨by simp, resembles.awaited _⟩
      · rw [resembles.record id demanded]
        exact ⟨rfl, rest, resembles.record⟩
  | recallExperiment identifier =>
      rw [rest]
      exact ⟨rfl, rfl, resembles.record⟩
  | lookUpExperiment identifier =>
      have asked :
          Resembles subject
            { world with lookups := world.lookups ++ [identifier] }
            { other with lookups := other.lookups ++ [identifier] } := by
        refine ⟨?_, resembles.record⟩
        rw [rest]
      rw [answer_lookUp, answer_lookUp]
      exact ⟨rfl, asked.awaited _⟩
  | rememberExperiment identifier =>
      rw [rest]
      exact ⟨rfl, rfl, resembles.record⟩
  | authorize location principal =>
      rw [answer_authorize, answer_authorize]
      exact ⟨rfl, resembles.awaited _⟩
  | createTrace trace =>
      obtain rfl : subject = some trace.id := demanded
      exact resembles.write 0 trace
  | replaceTrace id expected trace =>
      obtain rfl : subject = some id := demanded
      exact resembles.write expected trace

theorem admits_local
    (isNext : mayAllocate = true → world.ids.GivesNext subject)
    {call : Call}
    (demanded : (localContract subject).demands mayAllocate call) :
    (localContract subject).admits mayAllocate call
      (world.answer conditions deadline call).2 := by
  cases call with
  | allocateId =>
      generalize answered :
        (world.answer conditions deadline .allocateId).2 = answer
      rcases answer with identifier | fault | _
      · exact isNext demanded identifier (allocate_of_answered answered)
      · trivial
      · trivial
  | _ => trivial

end World

/-! ## Programs about one record -/

/-- A program that is about one identifier runs the same in worlds that resemble
each other as far as that goes. -/
theorem Program.Keeps.resembles
    {Result : Type} {subject : Option String} {ends : Bool → Result → Prop}
    {mayAllocate : Bool} {program : Program Result} {world other : World}
    {conditions : Conditions} {deadline : Nat}
    (keeps : program.Keeps (localContract subject) ends mayAllocate)
    (isNext : mayAllocate = true → world.ids.GivesNext subject)
    (resembles : World.Resembles subject world other) :
    (program.runUntil conditions.alone deadline other).2 =
        (program.runUntil conditions.alone deadline world).2 ∧
      World.Resembles subject
        (program.runUntil conditions.alone deadline world).1
        (program.runUntil conditions.alone deadline other).1 := by
  induction program generalizing mayAllocate world other with
  | done result => exact ⟨rfl, resembles⟩
  | step call resume inductionHypothesis =>
      rw [keeps_step] at keeps
      obtain ⟨demanded, afterwards⟩ := keeps
      obtain ⟨sameAnswer, stillResembles⟩ :=
        @World.Resembles.answer _ _ _ conditions deadline _ resembles _
          demanded
      have admitted :=
        @World.admits_local _ _ conditions.alone deadline _ isNext _ demanded
      simp only [Program.runUntil]
      rw [sameAnswer]
      refine
        inductionHypothesis _ (afterwards _ admitted) ?_ stillResembles
      -- Once an identifier is taken no other one may be.
      cases call with
      | allocateId => exact nofun
      | _ =>
          rw [World.ids_answer _ (by rintro ⟨⟩)]
          exact isNext

namespace Attempt

variable {Value Next : Type} {subject : Option String}

/-- Whether an attempt is about one identifier and takes none from the
source. -/
def IsLocal (subject : Option String) (attempt : Attempt Value) : Prop :=
  ∀ mayAllocate,
    Keeps (localContract subject) (fun _ _ => True) (fun _ _ => True)
      mayAllocate attempt

theorem isLocal_settled (result : Except ServiceError Value) :
    IsLocal subject (settled result) := by
  intro mayAllocate
  rw [keeps_settled]
  exact ⟨fun _ _ => trivial, fun _ _ => trivial⟩

theorem isLocal_pure (value : Value) :
    IsLocal subject (pure value : Attempt Value) :=
  isLocal_settled (.ok value)

theorem isLocal_require (violations : List Violation) :
    IsLocal subject (require violations) := by
  unfold require
  split
  · exact isLocal_settled _
  · exact isLocal_settled _

theorem isLocal_calling
    {call : Call} {settle : call.Answer → Except ServiceError Value}
    (demanded :
      ∀ mayAllocate, (localContract subject).demands mayAllocate call) :
    IsLocal subject (calling call settle) := by
  intro mayAllocate
  rw [keeps_calling]
  refine ⟨demanded mayAllocate, ?_⟩
  intro answer _
  cases settle answer <;> trivial

theorem isLocal_bind
    {attempt : Attempt Value} {next : Value → Attempt Next}
    (first : IsLocal subject attempt)
    (second : ∀ value, IsLocal subject (next value)) :
    IsLocal subject (attempt >>= next) := by
  intro mayAllocate
  rw [keeps_bind]
  exact (first mayAllocate).imp (fun later value _ => second value later)
    fun _ _ => id

theorem isLocal_bind_settled
    {result : Except ServiceError Value} {next : Value → Attempt Next}
    (second : ∀ value, result = .ok value → IsLocal subject (next value)) :
    IsLocal subject (settled result >>= next) := by
  intro mayAllocate
  rw [keeps_bind, keeps_settled]
  exact
    ⟨fun value isValue => second value isValue mayAllocate,
      fun _ _ => trivial⟩

end Attempt

/-! ## Requests are about one record -/

namespace Request

open Attempt

variable {subject : Option String}

theorem isLocal_authorize
    (location : TraceLocation) (principal : Option String) :
    IsLocal subject (Access.authorize location principal) := by
  apply isLocal_bind
  · exact isLocal_calling fun _ => trivial
  · intro allowed
    split
    · exact isLocal_pure ()
    · exact isLocal_settled _

theorem isLocal_requireExperiment (identifier : String) :
    IsLocal subject (Access.requireExperiment identifier) := by
  apply isLocal_bind
  · exact isLocal_calling fun _ => trivial
  · intro known
    split
    · exact isLocal_pure ()
    · apply isLocal_bind
      · exact isLocal_calling fun _ => trivial
      · intro found
        split
        · exact isLocal_calling fun _ => trivial
        · exact isLocal_require _

theorem isLocal_resolve
    (location : TraceLocation) (principal : Option String) :
    IsLocal subject (Access.resolve location principal) := by
  apply isLocal_bind
  · unfold Access.target
    split
    · exact
        isLocal_bind (isLocal_requireExperiment _) fun _ => isLocal_pure _
    · split
      · exact isLocal_pure _
      · exact isLocal_settled _
  · intro target
    exact
      isLocal_bind (isLocal_authorize location principal)
        fun _ => isLocal_pure _

section Record

variable {id : String} (isSubject : subject = some id)

include isSubject

theorem isLocal_read : IsLocal subject (Service.read id) :=
  isLocal_calling fun _ => isSubject

theorem isLocal_replace
    (operation : Operation) (stored : StoredTrace) (trace : Trace) :
    IsLocal subject (Service.replace operation id stored trace) :=
  isLocal_calling fun _ => isSubject

theorem isLocal_load : IsLocal subject (Service.load id) := by
  apply isLocal_bind
  · exact isLocal_read isSubject
  · intro found
    cases found with
    | none => exact isLocal_settled _
    | some stored => exact isLocal_pure stored

theorem isLocal_loadForTagging (principal : Option String) :
    IsLocal subject (Service.loadForTagging principal id) := by
  apply isLocal_bind
  · exact isLocal_load isSubject
  · intro stored
    exact
      isLocal_bind (isLocal_authorize _ principal) fun _ => isLocal_pure stored

end Record

section Submit

variable {settings : Settings} {submission : Submission} {mayAllocate : Bool}
  (told : ∀ id, submission.traceId? = some id → subject = some id)
  (untold : submission.traceId? = none → mayAllocate = true)

include told untold

theorem keeps_local_settleId
    {ok : Bool → String → Prop}
    (afterwards : ∀ later id, subject = some id → ok later id) :
    Keeps (localContract subject) ok (fun _ _ => True) mayAllocate
      (Service.settleId submission) := by
  unfold Service.settleId
  cases isTold : submission.traceId? with
  | some id =>
      rw [keeps_pure]
      exact afterwards mayAllocate id (told id isTold)
  | none =>
      rw [keeps_bind, keeps_calling]
      refine ⟨untold isTold, ?_⟩
      rintro (identifier | fault | _) isSubject
      · change Keeps _ _ _ _ (pure _)
        rw [keeps_pure]
        exact afterwards _ _ isSubject
      · trivial
      · trivial

theorem keeps_local_submit
    {message : Wire.Trace}
    (accepted : Submission.ofRequest settings message = .ok submission)
    (principal : Option String) :
    Keeps (localContract subject) (fun _ _ => True) (fun _ _ => True)
      mayAllocate (Service.submit settings principal message) := by
  unfold Service.submit
  rw [keeps_bind, accepted, keeps_settled]
  refine ⟨?_, fun _ _ => trivial⟩
  rintro _ ⟨⟩
  rw [keeps_bind]
  apply keeps_local_settleId told untold
  intro later id isSubject
  refine (?_ : IsLocal subject _) later
  apply isLocal_bind (isLocal_require _)
  intro _
  apply isLocal_bind (isLocal_read isSubject)
  intro found
  cases found with
  | none =>
      apply isLocal_bind (isLocal_resolve _ principal)
      intro _
      apply isLocal_bind_settled
      intro trace isResult
      rw [← Submission.id_of_result isResult] at isSubject
      refine isLocal_bind ?_ fun _ => isLocal_pure _
      apply isLocal_calling
      exact fun _ => isSubject
  | some stored =>
      apply isLocal_bind (isLocal_settled _)
      intro _
      apply isLocal_bind (isLocal_resolve _ principal)
      intro _
      apply isLocal_bind (isLocal_settled _)
      intro trace
      exact
        isLocal_bind (isLocal_replace isSubject _ _ _) fun _ => isLocal_pure _

end Submit

section Named

variable {named : String}

theorem isLocal_get :
    IsLocal (Identifier.keyOf? named) (Service.get named) := by
  unfold Service.get
  apply isLocal_bind_settled
  intro id isTraceKey
  have isSubject := keyOf?_of_traceKey isTraceKey
  exact isLocal_bind (isLocal_load isSubject) fun _ => isLocal_pure _

theorem isLocal_setTag (principal : Option String) (given value : String) :
    IsLocal (Identifier.keyOf? named)
      (Service.setTag principal named given value) := by
  unfold Service.setTag
  apply isLocal_bind (isLocal_settled _)
  intro key
  apply isLocal_bind_settled
  intro id isTraceKey
  have isSubject := keyOf?_of_traceKey isTraceKey
  apply isLocal_bind (isLocal_loadForTagging isSubject principal)
  intro stored
  exact
    isLocal_bind (isLocal_replace isSubject _ _ _) fun _ => isLocal_pure _

theorem isLocal_deleteTag (principal : Option String) (given : String) :
    IsLocal (Identifier.keyOf? named)
      (Service.deleteTag principal named given) := by
  unfold Service.deleteTag
  apply isLocal_bind (isLocal_settled _)
  intro key
  apply isLocal_bind_settled
  intro id isTraceKey
  have isSubject := keyOf?_of_traceKey isTraceKey
  apply isLocal_bind (isLocal_loadForTagging isSubject principal)
  intro stored
  split
  · exact
      isLocal_bind (isLocal_replace isSubject _ _ _) fun _ => isLocal_pure _
  · exact isLocal_pure _

end Named

/-- A request reads and writes only under the identifier that it is about. -/
theorem keeps_local
    (settings : Settings) (request : Request) (ids : IdSequence) :
    ∃ mayAllocate,
      (mayAllocate = true →
        ids.GivesNext (request.subject? settings ids)) ∧
        Keeps (localContract (request.subject? settings ids))
          (fun _ _ => True) (fun _ _ => True) mayAllocate
          (request.attempt settings) := by
  cases request with
  | submit principal message =>
      rw [attempt]
      cases accepted : Submission.ofRequest settings message with
      | error error =>
          refine ⟨false, nofun, ?_⟩
          unfold Service.submit
          rw [accepted]
          exact isLocal_bind_settled (by simp) false
      | ok submission =>
          simp only [subject?, accepted]
          refine ⟨submission.traceId?.isNone, ?_, ?_⟩
          · intro untold identifier isNext
            rw [Option.isNone_iff_eq_none.mp untold, isNext]
            rfl
          · refine keeps_local_submit ?_ ?_ accepted principal
            · intro id isTold
              rw [isTold]
              rfl
            · exact Option.isNone_iff_eq_none.mpr
  | get named =>
      rw [subject?, attempt]
      exact ⟨false, nofun, isLocal_get false⟩
  | setTag principal named given value =>
      rw [subject?, attempt]
      exact ⟨false, nofun, isLocal_setTag principal given value false⟩
  | deleteTag principal named given =>
      rw [subject?, attempt]
      exact ⟨false, nofun, isLocal_deleteTag principal given false⟩

end Request

/-- A request gets the same answer and leaves the same, whatever is stored under
other identifiers than the one that it is about. -/
theorem local_of_request
    (settings : Settings) (request : Request) {world other : World}
    (resembles :
      World.Resembles (request.subject? settings world.ids) world other)
    (conditions : Conditions) (timeout : Nat) :
    let run := (request.attempt settings).run.runWithin conditions.alone timeout
    (run other).2 = (run world).2 ∧
      World.Resembles (request.subject? settings world.ids) (run world).1
        (run other).1 := by
  obtain ⟨mayAllocate, isNext, keeps⟩ :=
    Request.keeps_local settings request world.ids
  have sameClock : other.clock = world.clock := by rw [resembles.rest]
  intro run
  simp only [run, Program.runWithin, sameClock]
  exact (Attempt.keeps_iff.mp keeps).resembles isNext resembles

end TraceArchive
