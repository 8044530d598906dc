import TraceArchive.Proofs.Service.Effects
import TraceArchive.Proofs.Service.Running

/-!
# Update modes and new traces

When submitted spans are to replace the stored ones, their tree is checked
before any call is made; when they are to be added, only after the stored trace
was read and its location found. For a trace that is not stored yet both accept
the same submissions and store the same. The main statement is `submit_of_new`.
-/

namespace TraceArchive

def Settings.updating (settings : Settings) (mode : UpdateMode) : Settings :=
  { settings with updateMode := mode }

/-! ## The two checks of the tree -/

namespace Submission

variable {settings : Settings} {message : Wire.Trace} {submission : Submission}

theorem treeViolations_append :
    treeViolations (settings.updating .append) message = [] := by
  unfold treeViolations
  split
  · contradiction
  · rfl

/-- Before the stored trace is read the tree is checked as that of a new
trace. -/
theorem treeViolations_replace
    {mode : UpdateMode}
    (accepted :
      ofRequest (settings.updating mode) message = .ok submission) :
    treeViolations (settings.updating .replace) message =
      Check.treeViolations
        (settings.validation.modeFor submission.info.state)
        submission.spanList := by
  obtain ⟨_, _, areSpans⟩ := parts_of_accepted accepted
  unfold treeViolations spanList
  rw [state_of_accepted accepted, areSpans]
  cases message.spans with
  | none => rfl
  | some messages => rfl

theorem ofRequest_append
    (faultless : treeViolations (settings.updating .replace) message = []) :
    ofRequest (settings.updating .append) message =
      ofRequest (settings.updating .replace) message := by
  unfold ofRequest violations
  rw [faultless, treeViolations_append]

/-- What a new trace lacks when its spans are to be added is what it lacks when
they are to replace others. -/
theorem mergedViolations_append
    (accepted :
      ofRequest (settings.updating .append) message = .ok submission)
    (traceId : String) :
    submission.mergedViolations (settings.updating .append) none traceId =
      treeViolations (settings.updating .replace) message :=
  (treeViolations_replace accepted).symm

theorem result_of_faultless
    (accepted :
      ofRequest (settings.updating .append) message = .ok submission)
    (faultless : treeViolations (settings.updating .replace) message = [])
    (traceId : String) :
    submission.result (settings.updating .append) none traceId =
      submission.result (settings.updating .replace) none traceId := by
  have nothing :
      submission.mergedViolations (settings.updating .replace) none traceId =
        [] := rfl
  unfold result
  rw [mergedViolations_append accepted, faultless, nothing]
  rfl

end Submission

/-! ## Submissions about new traces -/

namespace Service

variable {settings : Settings} {principal : Option String}
  {message : Wire.Trace} {world : World} {conditions : Conditions}
  {deadline : Nat}

theorem runUntil_settleId
    {submission : Submission} {reached : World} {traceId : String}
    (ran :
      (settleId submission).runUntil conditions.alone deadline world =
        (reached, .ok traceId)) :
    reached.store = world.store ∧
      submission.traceId?.or
          (world.ids.allocate.2.toOption.map Identifier.toHex) =
        some traceId := by
  unfold settleId at ran
  cases told : submission.traceId? with
  | some id =>
      rw [told] at ran
      cases ran
      exact ⟨rfl, rfl⟩
  | none =>
      rw [told] at ran
      rw [Attempt.runUntil_bind, Attempt.runUntil_calling] at ran
      have left :
          (world.answer conditions.alone deadline .allocateId).1.store =
            world.store := World.store_answer .allocateId
      generalize isAnswer :
        (world.answer conditions.alone deadline .allocateId).2 = answer
        at ran
      rcases answer with identifier | fault | _
      · cases ran
        rw [World.allocate_of_answered isAnswer]
        exact ⟨left, rfl⟩
      · cases ran
      · cases ran

theorem get?_of_runUntil_read
    {traceId : String} {reached : World} {found : Option StoredTrace}
    (ran :
      (read traceId).runUntil conditions deadline world =
        (reached, .ok found)) :
    world.store.get? traceId = found := by
  apply @World.read_of_answered world conditions deadline
  unfold read at ran
  rw [Attempt.runUntil_calling] at ran
  generalize (world.answer conditions deadline (.readTrace traceId)).2 = answer
    at ran ⊢
  rcases answer with present | fault | _
  · cases ran
    rfl
  · cases ran
  · cases ran

/-- With no record under its identifier a submission whose tree is in order runs
in both modes alike. -/
theorem runUntil_submit_append
    (faultless :
      Submission.treeViolations (settings.updating .replace) message = [])
    (new :
      ∀ id,
        (Request.submit principal message).subject?
            (settings.updating .append) world.ids = some id →
          world.store.get? id = none) :
    (submit (settings.updating .append) principal message).runUntil
        conditions.alone deadline world =
      (submit (settings.updating .replace) principal message).runUntil
        conditions.alone deadline world := by
  unfold submit
  rw [← Submission.ofRequest_append faultless]
  cases accepted :
      Submission.ofRequest (settings.updating .append) message with
  | error error => rfl
  | ok submission =>
      simp only [Request.subject?, accepted] at new
      apply Attempt.runUntil_bind_congr
      rintro _ _ ⟨⟩
      apply Attempt.runUntil_bind_congr
      intro settled traceId isSettled
      obtain ⟨left, isSubject⟩ := runUntil_settleId isSettled
      apply Attempt.runUntil_bind_congr
      intro required _ isRequired
      obtain rfl := Attempt.runUntil_require isRequired
      apply Attempt.runUntil_bind_congr
      intro reached stored isRead
      obtain rfl : stored = none := by
        rw [← get?_of_runUntil_read isRead, left]
        exact new traceId isSubject
      apply Attempt.runUntil_bind_congr
      intro located _ _
      have sameResult :=
        Submission.result_of_faultless accepted faultless traceId
      change
        (Attempt.settled
              (submission.result (settings.updating .append) none traceId) >>=
            _).runUntil conditions.alone deadline located = _
      rw [sameResult]
      rfl

/-- A submission that succeeds for a new trace has a tree in order. -/
theorem faultless_of_submitted
    {timeout : Nat} {mode : UpdateMode} {trace : Trace}
    (new :
      ∀ id,
        (Request.submit principal message).subject?
            (settings.updating .append) world.ids = some id →
          world.store.get? id = none)
    (succeeded :
      ((submit (settings.updating mode) principal message).run.runWithin
        conditions.alone timeout world).2 = .ok trace) :
    Submission.treeViolations (settings.updating .replace) message = [] := by
  obtain ⟨known, leaves, ended⟩ :=
    leaves_of_request (settings.updating mode) (.submit principal message)
      world conditions timeout
  change Attempt.MayEnd _ _ _
    ((submit (settings.updating mode) principal message).run.runWithin
      conditions.alone timeout world).2 at ended
  rw [succeeded] at ended
  obtain ⟨isSubject, makes, _⟩ := leaves.made ended fun _ => rfl
  generalize isStored : world.store.get? trace.id = stored at makes
  cases mode with
  | replace =>
      cases makes with
      | created fits _ =>
          exact (Submission.faultless_of_accepted fits.accepted).2
      | updated fits _ _ =>
          exact (Submission.faultless_of_accepted fits.accepted).2
  | append =>
      obtain rfl : stored = none := isStored.symm.trans (new _ isSubject)
      cases makes with
      | @created _ _ _ traceId _ fits isResult =>
          rw [← Submission.mergedViolations_append fits.accepted traceId]
          exact (Submission.parts_of_result isResult).1

/-- For a trace that is not stored yet a submission whose spans are to be added
succeeds exactly if it does when they are to replace others, and then answers
and leaves the same. When it fails, the store stays as it was. -/
theorem submit_of_new
    (settings : Settings) (principal : Option String) (message : Wire.Trace)
    (world : World)
    (new :
      ∀ id,
        (Request.submit principal message).subject?
            (settings.updating .append) world.ids = some id →
          world.store.get? id = none)
    (conditions : Conditions) (timeout : Nat) :
    let run (mode : UpdateMode) :=
      (submit (settings.updating mode) principal message).run.runWithin
        conditions.alone timeout world
    (∀ trace, (run .append).2 = .ok trace ↔ (run .replace).2 = .ok trace) ∧
      (∀ trace, (run .append).2 = .ok trace →
        (run .append).1 = (run .replace).1) ∧
      ∀ mode error, (run mode).2 = .error error →
        (run mode).1.store = world.store := by
  intro run
  have same :
      ∀ mode trace, (run mode).2 = .ok trace → run .append = run .replace := by
    intro mode trace succeeded
    exact runUntil_submit_append (faultless_of_submitted new succeeded) new
  refine ⟨?_, ?_, ?_⟩
  · intro trace
    constructor
    · intro succeeded
      rw [← same .append trace succeeded]
      exact succeeded
    · intro succeeded
      rw [same .replace trace succeeded]
      exact succeeded
  · intro trace succeeded
    rw [same .append trace succeeded]
  · intro mode error failed
    obtain ⟨known, leaves, ended⟩ :=
      leaves_of_request (settings.updating mode) (.submit principal message)
        world conditions timeout
    change Attempt.MayEnd _ _ known (run mode).2 at ended
    rw [failed] at ended
    exact leaves.unwritten ended

/-- A message with a span and the one under which it stands. -/
def newMessage : Wire.Trace where
  info :=
    some
      { location := some { experiment := some (some "1") }
        requestTime := some default
        state := some .ok }
  spans :=
    some
      [{ traceId := some ⟨[1]⟩
         spanId := some ⟨[3]⟩
         parentId := some ⟨[2]⟩
         name := some "step"
         startTime := some 2
         endTime := some 3 },
       { traceId := some ⟨[1]⟩
         spanId := some ⟨[2]⟩
         name := some "root"
         startTime := some 1
         endTime := some 4 }]

/-- Beside the record of another trace both spans are stored in both modes. -/
theorem submit_newMessage :
    let world : World :=
      { World.initial (.start 0) with
        store :=
          (TraceStore.empty.create
            ⟨TraceInfo.plain "02" default default, []⟩).1 }
    let run (mode : UpdateMode) :=
      (submit (Settings.updating {} mode) none newMessage).run.runWithin
        (Conditions.alone {}) 0 world
    (world.store.get? "02").isSome ∧
      (run .append).2.toOption.map (fun trace => trace.spans.length) =
          some 2 ∧
        (∀ trace, (run .append).2 = .ok trace ↔ (run .replace).2 = .ok trace) ∧
          (∀ trace, (run .append).2 = .ok trace →
            (run .append).1 = (run .replace).1) ∧
            ∀ mode error, (run mode).2 = .error error →
              (run mode).1.store = world.store := by
  intro world run
  have isSubject :
      (Request.submit none newMessage).subject?
          (Settings.updating {} .append) world.ids = some "01" := by
    decide +kernel
  have notStored : world.store.get? "01" = none :=
    Option.not_isSome_iff_eq_none.mp (by decide +kernel)
  refine ⟨by decide +kernel, by decide +kernel, ?_⟩
  -- Otherwise the run would be evaluated to compare it with itself.
  with_reducible
    refine submit_of_new {} none newMessage world ?_ {} 0
  intro id given
  rw [isSubject] at given
  cases given
  exact notStored

end Service

end TraceArchive
