import TraceArchive.Proofs.Check.Lacking
import TraceArchive.Proofs.Service.Traffic

/-!
# Why requests are rejected

A request that is rejected is told at least one violation, and none of these is
that something is incomplete for no known reason, whatever the collaborators
answer. A part that a submission cannot do without and that is lacking is among
them. The main statement is `Request.rejection_explained`.
-/

namespace TraceArchive

/-! ## Rejections that tell a reason -/

/-! Every message has the letter `e`, and the text that stands for no violations
has not. -/

section Letter

variable {first second : String}

theorem letter_of_first (member : 'e' ∈ first.toList) :
    'e' ∈ (first ++ second).toList := by
  rw [String.toList_append]
  exact List.mem_append_left _ member

theorem letter_of_second (member : 'e' ∈ second.toList) :
    'e' ∈ (first ++ second).toList := by
  rw [String.toList_append]
  exact List.mem_append_right _ member

end Letter

theorem AttributeFault.letter_mem_message :
    ∀ fault : AttributeFault, 'e' ∈ fault.message.toList
  | .tooDeep => letter_of_second (by decide)
  | .notFinite _ => letter_of_second (by decide)

theorem ValueFault.letter_mem_message :
    ∀ fault : ValueFault, 'e' ∈ fault.message.toList
  | .attribute fault => fault.letter_mem_message
  | .notText _ => letter_of_first (by decide)
  | .notObject _ => letter_of_first (by decide)

namespace Violation

theorem letter_mem_message :
    ∀ violation : Violation, 'e' ∈ violation.message.toList
  | .missingField _ => letter_of_second (by decide)
  | .invalidTiming _ _ _ => letter_of_first (letter_of_second (by decide))
  | .malformedTrace _ => letter_of_first (by decide)
  | .orphanSpan _ _ => letter_of_second (by decide)
  | .duplicateSpan _ => letter_of_second (by decide)
  | .invalidLocation _ => letter_of_first (by decide)
  | .invalidAttribute _ fault => letter_of_second fault.letter_mem_message
  | .invalidTransition _ _ =>
      letter_of_first (letter_of_first (letter_of_first (by decide)))

theorem kind_ne_fallback (violation : Violation) :
    violation.kind ≠ "INVALID_ARGUMENT" := by
  cases violation <;> simp [kind]

end Violation

/-- Whether violations tell why something is rejected: there is one, so that
neither the kind nor the text of the rejection is that for want of any, and none
is that something is incomplete for no known reason. -/
structure TellReason (violations : List Violation) : Prop where
  nonEmpty : violations ≠ []
  kind : (ServiceError.rejected violations).kind ≠ "INVALID_ARGUMENT"
  text :
    (ServiceError.rejected violations).message ≠
      "trace rejected: no violations"
  known : .malformedTrace .incomplete ∉ violations

theorem ServiceError.summary_ne_fallback
    {violations : List Violation} (nonEmpty : violations ≠ []) :
    summary violations ≠ "no violations" := by
  have letter : 'e' ∈ (summary violations).toList := by
    match violations with
    | [] => exact absurd rfl nonEmpty
    | [only] => exact only.letter_mem_message
    | first :: _ :: _ =>
        simp only [summary, String.toList_append, List.mem_append]
        exact Or.inl (Or.inl (Or.inl first.letter_mem_message))
  intro same
  rw [same] at letter
  revert letter
  decide

theorem TellReason.intro
    {violations : List Violation} (nonEmpty : violations ≠ [])
    (known : .malformedTrace .incomplete ∉ violations) :
    TellReason violations where
  nonEmpty := nonEmpty
  kind := by
    cases violations with
    | nil => exact absurd rfl nonEmpty
    | cons first rest => exact first.kind_ne_fallback
  text := by
    intro same
    have sameSummary :
        "trace rejected: " ++ ServiceError.summary violations =
          "trace rejected: " ++ "no violations" :=
      same
    rw [String.append_right_inj] at sameSummary
    exact ServiceError.summary_ne_fallback nonEmpty sameSummary
  known := known

/-- A tree is refused for what is wrong with it. -/
theorem Check.tellReason_of_checkTree
    {mode : Check.Mode} {spans : List Span} {violations : List Violation}
    (refused : Check.checkTree mode spans = .error violations) :
    TellReason violations := by
  unfold Check.checkTree at refused
  split at refused
  · cases refused
  · rename_i nonEmpty
    cases refused
    exact
      TellReason.intro nonEmpty
        (Check.incomplete_not_mem_treeViolations mode spans)

/-- A check that accounts for what is lacking tells why it refuses. -/
theorem Check.Accounts.tellReason
    {Value : Type} {lacks : Violation → Prop}
    {checked : Except (List Violation) Value} {violations : List Violation}
    (accounts : Check.Accounts lacks checked)
    (refused : checked = .error violations) :
    TellReason violations :=
  TellReason.intro (accounts.nonEmpty refused) (accounts.known refused)

/-- Whether an error, if it is a rejection, tells why. -/
def ServiceError.Explained : ServiceError → Prop
  | .rejected violations => TellReason violations
  | _ => True

/-! ## Submissions -/

namespace Submission

/-- Whether a part that a submission cannot do without is lacking, and this is
the violation that names it. -/
inductive Lacks (request : Wire.Trace) : Violation → Prop
  | info : request.info = none → Lacks request (.missingField "info")
  | ofInfo {info : Wire.TraceInfo} {violation : Violation} :
      request.info = some info → Check.InfoLacks info violation →
        Lacks request violation
  | ofSpan {spans : List Wire.Span} {index : Nat} {span : Wire.Span}
      {violation : Violation} :
      request.spans = some spans → spans[index]? = some span →
        Check.SpanLacks (spanPath index) span violation →
          Lacks request violation

variable {settings : Settings} {request : Wire.Trace} {violation : Violation}

theorem mem_infoViolations_of_lacks
    {info : Wire.TraceInfo} (given : request.info = some info)
    (lacks : Check.InfoLacks info violation) :
    violation ∈ infoViolations request := by
  obtain ⟨violations, refused, member⟩ :=
    (Check.accounts_checkInfo info).refused lacks
  unfold infoViolations
  rw [given]
  dsimp only
  rw [refused]
  exact member

theorem mem_spanViolations_of_lacks
    {start index : Nat} {spans : List Wire.Span} {span : Wire.Span}
    (isSpan : spans[index]? = some span)
    (lacks : Check.SpanLacks (spanPath (start + index)) span violation) :
    violation ∈ spanViolations start spans := by
  induction spans generalizing start index with
  | nil => cases isSpan
  | cons head rest inductionHypothesis =>
      rw [spanViolations, List.mem_append]
      cases index with
      | zero =>
          cases isSpan
          left
          obtain ⟨violations, refused, member⟩ :=
            (Check.accounts_checkSpan (spanPath start) span).refused lacks
          rw [refused]
          exact member
      | succ index =>
          right
          apply inductionHypothesis isSpan
          rw [Nat.add_right_comm]
          exact lacks

theorem mem_violations_of_lacks
    (settings : Settings) (lacks : Lacks request violation) :
    violation ∈ violations settings request := by
  have isPart : violation ∈ partViolations request := by
    rw [partViolations, List.mem_append]
    cases lacks with
    | info absent =>
        left
        rw [infoViolations, absent]
        exact List.mem_singleton_self _
    | ofInfo given lacks => exact Or.inl (mem_infoViolations_of_lacks given lacks)
    | ofSpan given isSpan lacks =>
        right
        rw [given]
        refine mem_spanViolations_of_lacks isSpan ?_
        rw [Nat.zero_add]
        exact lacks
  unfold violations
  cases listed : partViolations request with
  | nil =>
      rw [listed] at isPart
      cases isPart
  | cons first rest =>
      rw [listed] at isPart
      exact isPart

theorem incomplete_not_mem_infoViolations :
    Violation.malformedTrace .incomplete ∉ infoViolations request := by
  unfold infoViolations
  cases request.info with
  | none => simp
  | some info =>
      dsimp only
      cases isChecked : Check.checkInfo info with
      | ok draft => exact List.not_mem_nil
      | error violations =>
          exact (Check.accounts_checkInfo info).known isChecked

theorem incomplete_not_mem_spanViolations
    {index : Nat} {spans : List Wire.Span} :
    Violation.malformedTrace .incomplete ∉ spanViolations index spans := by
  induction spans generalizing index with
  | nil => exact List.not_mem_nil
  | cons span rest inductionHypothesis =>
      rw [spanViolations, List.mem_append, not_or]
      refine ⟨?_, inductionHypothesis⟩
      cases isChecked : Check.checkSpan (spanPath index) span with
      | ok accepted => exact List.not_mem_nil
      | error violations =>
          exact (Check.accounts_checkSpan _ span).known isChecked

theorem incomplete_not_mem_violations :
    Violation.malformedTrace .incomplete ∉ violations settings request := by
  have notPart :
      Violation.malformedTrace .incomplete ∉ partViolations request := by
    rw [partViolations, List.mem_append, not_or]
    exact
      ⟨incomplete_not_mem_infoViolations, incomplete_not_mem_spanViolations⟩
  have notTree :
      Violation.malformedTrace .incomplete ∉
        treeViolations settings request := by
    unfold treeViolations
    split
    · exact Check.incomplete_not_mem_treeViolations _ _
    · exact List.not_mem_nil
  unfold violations
  split
  · exact notTree
  · exact notPart

/-- The information of a request with which nothing is wrong is accepted. -/
theorem acceptedInfo?_of_faultless
    (faultless : violations settings request = []) :
    ∃ info, acceptedInfo? request = some info := by
  have noParts : partViolations request = [] := by
    unfold violations at faultless
    split at faultless
    · assumption
    · exact faultless
  have noInfo : infoViolations request = [] :=
    (List.append_eq_nil_iff.mp noParts).1
  unfold infoViolations at noInfo
  cases given : request.info with
  | none =>
      rw [given] at noInfo
      cases noInfo
  | some info =>
      rw [given] at noInfo
      dsimp only at noInfo
      cases isChecked : Check.checkInfo info with
      | ok draft =>
          refine ⟨draft, ?_⟩
          rw [acceptedInfo?, given, Option.bind_some, isChecked]
          rfl
      | error violations =>
          rw [isChecked] at noInfo
          exact
            absurd noInfo ((Check.accounts_checkInfo info).nonEmpty isChecked)

/-- A submission is rejected with all that is wrong with it. -/
theorem ofRequest_of_violations
    (faulty : violations settings request ≠ []) :
    ofRequest settings request =
      .error (.rejected (violations settings request)) := by
  unfold ofRequest
  split
  · rename_i faultless _
    exact absurd faultless faulty
  · rfl

/-- A submission that is rejected before any call is told why. -/
theorem explained_ofRequest
    {error : ServiceError}
    (refused : ofRequest settings request = .error error) :
    error.Explained := by
  by_cases faultless : violations settings request = []
  · obtain ⟨info, accepted⟩ := acceptedInfo?_of_faultless faultless
    rw [ofRequest, faultless, accepted] at refused
    cases refused
  · rw [ofRequest_of_violations faultless] at refused
    cases refused
    exact TellReason.intro faultless incomplete_not_mem_violations

theorem explained_checkUpdatable
    {stored : TraceInfo} {info : InfoDraft} {error : ServiceError}
    (refused : checkUpdatable stored info = .error error) :
    error.Explained := by
  have known :
      Violation.malformedTrace .incomplete ∉
        locationChanges stored info ++ stateLosses stored info := by
    unfold locationChanges stateLosses
    split_ifs <;> simp
  unfold checkUpdatable at refused
  split at refused
  · split at refused
    · cases refused
    · rename_i faulty
      cases refused
      exact TellReason.intro faulty known
  · cases refused
    trivial

theorem explained_result
    {stored : Option Trace} {submission : Submission} {traceId : String}
    {error : ServiceError}
    (refused : submission.result settings stored traceId = .error error) :
    error.Explained := by
  have known :
      Violation.malformedTrace .incomplete ∉
        submission.mergedViolations settings stored traceId := by
    unfold mergedViolations
    split
    · exact Check.incomplete_not_mem_treeViolations _ _
    · exact List.not_mem_nil
  unfold result at refused
  split at refused
  · cases refused
  · rename_i faulty
    cases refused
    exact TellReason.intro faulty known

end Submission

/-! ## Programs -/

/-- The contract that admits every answer and demands nothing. -/
def Contract.free : Contract Unit where
  admits _ _ _ := True
  demands _ _ := True
  next _ _ _ := ()

namespace Attempt

variable {Value Next : Type}

/-- Whether an attempt, whatever its calls are answered with, fails with an
explanation if it is rejected. -/
def Explains (attempt : Attempt Value) : Prop :=
  Keeps .free (fun _ _ => True) (fun _ error => error.Explained) () attempt

namespace Explains

theorem settled
    {result : Except ServiceError Value}
    (explained : ∀ error, result = .error error → error.Explained) :
    Explains (settled result) :=
  keeps_settled.mpr ⟨fun _ _ => trivial, explained⟩

theorem pure (value : Value) : Explains (Pure.pure value) :=
  keeps_pure.mpr trivial

theorem bind
    {attempt : Attempt Value} {next : Value → Attempt Next}
    (first : Explains attempt) (second : ∀ value, Explains (next value)) :
    Explains (attempt >>= next) := by
  unfold Explains
  rw [keeps_bind]
  exact first.imp (fun _ value _ => second value) fun _ _ => id

theorem calling
    {call : Call} {settle : call.Answer → Except ServiceError Value}
    (explained :
      ∀ answer error, settle answer = .error error → error.Explained) :
    Explains (calling call settle) := by
  unfold Explains
  rw [keeps_calling]
  refine ⟨trivial, fun answer _ => ?_⟩
  cases settled : settle answer with
  | error error => exact explained answer error settled
  | ok value => exact trivial

theorem require
    {violations : List Violation}
    (known : .malformedTrace .incomplete ∉ violations) :
    Explains (require violations) :=
  keeps_require.mpr
    ⟨fun _ => trivial, fun nonEmpty => TellReason.intro nonEmpty known⟩

/-- A call that fails or is never answered is no rejection. -/
theorem within
    {Fault Answer : Type} {operation : Operation}
    {failure : Operation → Fault → ServiceError}
    (explained : ∀ fault, (failure operation fault).Explained)
    (outcome : Outcome Fault Answer) (error : ServiceError)
    (failed : outcome.within operation failure = .error error) :
    error.Explained := by
  cases outcome with
  | answered answer => cases failed
  | failed fault =>
      cases failed
      exact explained fault
  | stalled =>
      cases failed
      trivial

/-! ### Access -/

theorem lookUp (identifier : String) :
    Explains (Access.lookUp identifier) :=
  calling (within fun _ => trivial)

theorem requireExperiment (identifier : String) :
    Explains (Access.requireExperiment identifier) := by
  apply bind (calling fun _ _ failed => by cases failed)
  intro known
  split
  · exact pure ()
  · apply bind (lookUp identifier)
    intro found
    split
    · exact calling fun _ _ failed => by cases failed
    · exact require (by simp)

theorem authorize (location : TraceLocation) (principal : Option String) :
    Explains (Access.authorize location principal) := by
  have asked :
      Explains
        (Attempt.calling (.authorize location principal)
          (Outcome.within .authorizeWrite .collaborator)) :=
    calling (within fun _ => trivial)
  apply bind asked
  intro allowed
  split
  · exact pure ()
  · exact settled fun _ failed => by cases failed; trivial

theorem resolve (location : TraceLocation) (principal : Option String) :
    Explains (Access.resolve location principal) := by
  apply bind
  · unfold Access.target
    split
    · exact bind (requireExperiment _) fun _ => pure _
    · split
      · exact pure _
      · refine settled fun _ failed => ?_
        cases failed
        exact TellReason.intro (List.cons_ne_nil _ _) (by simp)
  · intro target
    exact bind (authorize location principal) fun _ => pure _

/-! ### Reading and writing -/

theorem read (id : String) : Explains (Service.read id) :=
  calling (within fun _ => trivial)

theorem load (id : String) : Explains (Service.load id) := by
  apply bind (read id)
  intro found
  cases found with
  | none => exact settled fun _ failed => by cases failed; trivial
  | some record => exact pure record

theorem loadForTagging (principal : Option String) (id : String) :
    Explains (Service.loadForTagging principal id) := by
  apply bind (load id)
  intro stored
  exact bind (authorize _ principal) fun _ => pure stored

theorem create (trace : Trace) : Explains (Service.create trace) :=
  calling (within fun _ => trivial)

theorem replace
    (operation : Operation) (id : String) (stored : StoredTrace)
    (trace : Trace) :
    Explains (Service.replace operation id stored trace) :=
  calling (within fun _ => trivial)

/-! ### Requests -/

theorem settleId (submission : Submission) :
    Explains (Service.settleId submission) := by
  unfold Service.settleId
  split
  · exact pure _
  · exact bind (calling (within fun _ => trivial)) fun _ => pure _

theorem submit
    (settings : Settings) (principal : Option String)
    (message : Wire.Trace) :
    Explains (Service.submit settings principal message) := by
  apply bind (settled fun _ => Submission.explained_ofRequest)
  intro submission
  apply bind (settleId submission)
  intro traceId
  apply bind (require (by simp [Submission.foreignSpans]))
  intro _
  apply bind (read traceId)
  intro found
  cases found with
  | none =>
      apply bind (resolve _ principal)
      intro _
      apply bind (settled fun _ => Submission.explained_result)
      intro trace
      exact bind (create trace) fun _ => pure _
  | some stored =>
      apply bind (settled fun _ => Submission.explained_checkUpdatable)
      intro _
      apply bind (resolve _ principal)
      intro _
      apply bind (settled fun _ => Submission.explained_result)
      intro trace
      exact bind (replace _ traceId stored trace) fun _ => pure _

theorem traceKey (named : String) :
    Explains (Attempt.settled (Service.traceKey named)) := by
  refine settled fun _ failed => ?_
  unfold Service.traceKey at failed
  split at failed
  · cases failed
  · cases failed
    trivial

theorem tagKey (given : String) :
    Explains (Attempt.settled (Service.tagKey given)) := by
  refine settled fun _ failed => ?_
  unfold Service.tagKey at failed
  dsimp only at failed
  split at failed
  · cases failed
    exact TellReason.intro (List.cons_ne_nil _ _) (by simp)
  · cases failed

theorem get (named : String) : Explains (Service.get named) := by
  apply bind (traceKey named)
  intro traceId
  exact bind (load traceId) fun _ => pure _

theorem setTag
    (principal : Option String) (named given value : String) :
    Explains (Service.setTag principal named given value) := by
  apply bind (tagKey given)
  intro key
  apply bind (traceKey named)
  intro traceId
  apply bind (loadForTagging principal traceId)
  intro stored
  exact bind (replace _ traceId stored _) fun _ => pure _

theorem deleteTag (principal : Option String) (named given : String) :
    Explains (Service.deleteTag principal named given) := by
  apply bind (tagKey given)
  intro key
  apply bind (traceKey named)
  intro traceId
  apply bind (loadForTagging principal traceId)
  intro stored
  split
  · exact bind (replace _ traceId stored _) fun _ => pure _
  · exact pure _

end Explains

end Attempt

namespace Request

theorem explains_attempt (settings : Settings) (request : Request) :
    (request.attempt settings).Explains := by
  cases request with
  | submit principal message => exact .submit settings principal message
  | get named => exact .get named
  | setTag principal named given value =>
      exact .setTag principal named given value
  | deleteTag principal named given => exact .deleteTag principal named given

/-- A rejection tells why, whatever the calls before it were answered with. -/
theorem tellReason_of_reaches
    {settings : Settings} {request : Request} {exchanges : List Exchange}
    {violations : List Violation}
    (rejected :
      (request.attempt settings).run.Reaches exchanges
        (.done (.error (.rejected violations)))) :
    TellReason violations := by
  have keeps := Attempt.keeps_iff.mp (explains_attempt settings request)
  have admitted : Contract.free.AdmitsAll () exchanges :=
    fun _ _ _ _ => trivial
  exact Program.keeps_done.mp (keeps.along rejected admitted)

/-- A rejection tells why, whatever world the request ran in. -/
theorem tellReason_of_runWithin
    {settings : Settings} {request : Request} {conditions : Conditions}
    {timeout : Nat} {world reached : World} {violations : List Violation}
    (ran :
      (request.attempt settings).run.runWithin conditions timeout world =
        (reached, .error (.rejected violations))) :
    TellReason violations := by
  have keeps := Attempt.keeps_iff.mp (explains_attempt settings request)
  obtain ⟨_, -, ends⟩ :=
    keeps.runUntil (fun _ _ => True) trivial fun _ _ _ _ _ => ⟨trivial, trivial⟩
  unfold Program.runWithin at ran
  rw [ran] at ends
  exact ends

/-- A submission that lacks a part is rejected before any call, and told so. -/
theorem run_submit_of_lacks
    (settings : Settings) (principal : Option String) {message : Wire.Trace}
    {violation : Violation} (lacks : Submission.Lacks message violation) :
    ∃ violations,
      (Service.submit settings principal message).run =
          .done (.error (.rejected violations)) ∧
        violation ∈ violations := by
  have member := Submission.mem_violations_of_lacks settings lacks
  refine ⟨Submission.violations settings message, ?_, member⟩
  have refused :=
    Submission.ofRequest_of_violations (List.ne_nil_of_mem member)
  unfold Service.submit
  rw [refused]
  rfl

example :
    (Service.submit {} none {}).run =
      .done (.error (.rejected [.missingField "info"])) :=
  rfl

/-- Requests and checks alike are rejected with a reason, which is never that
something is incomplete. Where a part could not be built, what is lacking of it
is among the reasons. -/
theorem rejection_explained (settings : Settings) :
    (∀ (request : Request) (exchanges : List Exchange)
        (violations : List Violation),
      (request.attempt settings).run.Reaches exchanges
          (.done (.error (.rejected violations))) →
        TellReason violations) ∧
    (∀ (request : Request) (conditions : Conditions) (timeout : Nat)
        (world reached : World) (violations : List Violation),
      (request.attempt settings).run.runWithin conditions timeout world =
          (reached, .error (.rejected violations)) →
        TellReason violations) ∧
    (∀ (principal : Option String) (message : Wire.Trace)
        (violation : Violation),
      Submission.Lacks message violation →
        ∃ violations,
          (Service.submit settings principal message).run =
              .done (.error (.rejected violations)) ∧
            violation ∈ violations) ∧
    (∀ info : Wire.TraceInfo,
      (∀ violations, Check.checkInfo info = .error violations →
        TellReason violations) ∧
      Check.Accounts (Check.InfoLacks info) (Check.checkInfo info) ∧
      (Check.draft? info = none ↔
        ∃ violation, Check.InfoLacks info violation) ∧
      ∀ violation, Check.checkLocation info.location = .error violation →
        Check.NamesLocation violation) ∧
    (∀ (path : String) (span : Wire.Span),
      (∀ violations, Check.checkSpan path span = .error violations →
        TellReason violations) ∧
      Check.Accounts (Check.SpanLacks path span) (Check.checkSpan path span) ∧
      (Check.Unbuilt span ↔
        ∃ violation, Check.SpanLacks path span violation)) ∧
    ∀ (mode : Check.Mode) (spans : List Span) (violations : List Violation),
      Check.checkTree mode spans = .error violations →
        TellReason violations := by
  refine ⟨?_, ?_, ?_, ?_, ?_, ?_⟩
  · intro request exchanges violations
    exact tellReason_of_reaches
  · intro request conditions timeout world reached violations
    exact tellReason_of_runWithin
  · intro principal message violation
    exact run_submit_of_lacks settings principal
  · intro info
    have accounts := Check.accounts_checkInfo info
    exact
      ⟨fun _ => accounts.tellReason, accounts, Check.draft?_eq_none_iff,
        fun _ => Check.namesLocation_of_checkLocation⟩
  · intro path span
    have accounts := Check.accounts_checkSpan path span
    exact ⟨fun _ => accounts.tellReason, accounts, Check.unbuilt_iff path⟩
  · intro mode spans violations
    exact Check.tellReason_of_checkTree

end Request

end TraceArchive
