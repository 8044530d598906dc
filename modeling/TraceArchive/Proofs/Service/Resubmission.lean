import TraceArchive.Proofs.Check.Written
import TraceArchive.Proofs.Service.Success
import TraceArchive.Proofs.Service.WellFormed

/-!
# Submitting what was read

The message about a trace in progress says again what is stored. Its parts are
accepted as those of the trace, the tree of its spans passes the check that it
passed before, merging what is known of the trace with itself changes nothing,
and there are no attributes left to cut off. So when its spans take the place of
the stored ones, nothing but the version changes. The main statement is
`resubmitted_of_run`.
-/

namespace TraceArchive

/-! ## What the merge and the checks leave -/

/-- Whether two traces differ in nothing but signs of zeros among the attributes
of their spans. -/
structure Trace.Same (left right : Trace) : Prop where
  info : left.info = right.info
  spans : List.Forall₂ Span.Same left.spans right.spans

namespace Span.Same

variable {left right : Span}

theorem bareSpan (same : left.Same right) :
    Check.bareSpan left = Check.bareSpan right := by
  rw [same.others]
  rfl

theorem attributeMaps (same : left.Same right) :
    List.Forall₂ (fun left right => left.same right = true)
      left.attributeMaps right.attributeMaps := by
  refine .cons same.attributes (List.rel_append ?_ ?_)
  · rw [List.forall₂_map_left_iff, List.forall₂_map_right_iff]
    exact same.events.imp fun _ _ sameEvent => sameEvent.attributes
  · rw [List.forall₂_map_left_iff, List.forall₂_map_right_iff]
    exact same.links.imp fun _ _ sameLink => sameLink.attributes

/-- A policy that has nothing to cut off a span has nothing to cut off the same
span. -/
theorem spares
    (same : left.Same right) {policy : AttributePolicy}
    (spares : policy.Spares right) : policy.Spares left := by
  intro maximum enforced attributes member
  obtain ⟨other, inOther, areSame⟩ :=
    exists_of_forall₂ same.attributeMaps member
  rw [Attributes.size_eq_of_same areSame]
  exact spares maximum enforced other inOther

end Span.Same

theorem Check.treeViolations_of_same
    {spans others : List Span} (same : List.Forall₂ Span.Same spans others)
    (mode : Mode) :
    treeViolations mode spans = treeViolations mode others := by
  apply treeViolations_congr
  induction same with
  | nil => rfl
  | cons sameFirst _ inductionHypothesis =>
      rw [List.map_cons, List.map_cons, sameFirst.bareSpan,
        inductionHypothesis]

namespace Submission

theorem orPrevious_self {Value : Type} (value : Option Value) :
    orPrevious value value = value := by
  cases value <;> rfl

/-- Merging what is known of a trace with itself changes nothing. -/
theorem mergeInfo_self (info : TraceInfo) : mergeInfo info info = info := by
  simp only [mergeInfo, orPrevious_self, KeyMap.union_self, ite_self]

theorem foreignSpans_of_own
    {submission : Submission} {id : String}
    (own : ∀ span ∈ submission.spanList, span.traceId.toHex = id) :
    submission.foreignSpans id = [] := by
  refine List.map_eq_nil_iff.mpr (List.filter_eq_nil_iff.mpr ?_)
  intro span member
  simp [Identifier.hasKey_of_toHex (own span member)]

/-- A submission that tells of a trace what is known already puts its spans in
the place of the stored ones. -/
theorem result_of_replaced
    {settings : Settings} (replaces : settings.updateMode = .replace)
    {trace : Trace} {submission : Submission} {spans : List Span}
    (sameInfo : submission.info.toInfo trace.id = trace.info)
    (isSent : submission.spans = some spans) :
    submission.result settings (some trace) trace.id =
      .ok ⟨trace.info, settings.attributes.apply spans⟩ := by
  have merged :
      submission.merged settings (some trace) trace.id =
        ⟨trace.info, spans⟩ := by
    simp only [Submission.merged, sameInfo, isSent, mergeInfo_self, mergeSpans,
      replaces]
  have nothing :
      submission.mergedViolations settings (some trace) trace.id = [] := by
    simp [mergedViolations, needsTreeCheck, replaces]
  simp only [Submission.result, nothing, merged]

/-- The spans that are accepted one by one are accepted together. -/
theorem acceptedSpans_of_forall₂
    {messages : List Wire.Span} {spans : List Span}
    (accepted :
      List.Forall₂
        (fun message span => ∀ path, Check.checkSpan path message = .ok span)
        messages spans)
    (index : Nat) :
    acceptedSpans index messages = spans ∧
      spanViolations index messages = [] := by
  induction accepted generalizing index with
  | nil => exact ⟨rfl, rfl⟩
  | cons isFirst _ inductionHypothesis =>
      obtain ⟨areRest, faultless⟩ := inductionHypothesis (index + 1)
      simp only [acceptedSpans, spanViolations, isFirst, areRest, faultless,
        List.append_nil, and_self]

theorem ofRequest_of_faultless
    {settings : Settings} {info : Wire.TraceInfo} {draft : InfoDraft}
    {messages : List Wire.Span} {spans : List Span}
    (isDraft : Check.checkInfo info = .ok draft)
    (accepted :
      List.Forall₂
        (fun message span => ∀ path, Check.checkSpan path message = .ok span)
        messages spans)
    (passes :
      Check.treeViolations (settings.validation.modeFor draft.state) spans =
        []) :
    ofRequest settings { info := some info, spans := some messages } =
      .ok ⟨draft, some spans⟩ := by
  let message : Wire.Trace := { info := some info, spans := some messages }
  obtain ⟨areSpans, faultless⟩ := acceptedSpans_of_forall₂ accepted 0
  have declared : declaredState message = draft.state :=
    state_of_draft (Check.draft_of_checkInfo isDraft).2
  have noneInParts : partViolations message = [] := by
    simp only [partViolations, infoViolations, message, isDraft,
      Option.getD_some, faultless, List.append_nil]
  have noneInTree : treeViolations settings message = [] := by
    unfold treeViolations
    split
    · rename_i isSpans
      cases isSpans
      rw [declared, areSpans]
      exact passes
    · rfl
  have isInfo : acceptedInfo? message = some draft := by
    simp only [acceptedInfo?, message, Option.bind_some, isDraft,
      Except.toOption]
  have nothing : violations settings message = [] := by
    simp only [violations, noneInParts, noneInTree]
  unfold ofRequest
  rw [nothing, isInfo]
  simp only [Option.map_some, areSpans]

end Submission

/-! ## Traces that can be submitted again -/

/-- What has to hold of a well-formed trace for its message to be accepted under
some settings while it is in progress. -/
structure Trace.Resubmittable (settings : Settings) (trace : Trace) :
    Prop where
  canonical : Check.Canonical trace.info.location
  filled : ∀ span ∈ trace.spans, span.Filled
  passes :
    trace.info.state = .inProgress →
      Check.treeViolations (settings.validation.modeFor .inProgress)
        trace.spans = []

theorem AttributePolicy.filled_cut
    {policy : AttributePolicy} {span : Span} (filled : span.Filled) :
    (policy.cut span).Filled := by
  cases policy with
  | trustClient => exact filled
  | enforce maximum =>
      refine ⟨filled.parent, ?_, ?_⟩
      · intro event member
        obtain ⟨whole, isWhole, rfl⟩ := List.mem_map.mp member
        exact filled.events whole isWhole
      · intro link member
        obtain ⟨whole, isWhole, rfl⟩ := List.mem_map.mp member
        exact filled.links whole isWhole

namespace Trace.Resubmittable

variable {settings : Settings} {trace : Trace}

/-- What a submission leads to can be submitted again, if what was stored before
can. -/
theorem of_result
    {message : Wire.Trace} {submission : Submission} {stored : Option Trace}
    {traceId : String}
    (accepted : Submission.ofRequest settings message = .ok submission)
    (isResult : submission.result settings stored traceId = .ok trace)
    (before : ∀ previous, stored = some previous →
      previous.info.state = .inProgress ∧ previous.Resubmittable settings) :
    trace.Resubmittable settings := by
  obtain ⟨_, _, isCut⟩ := Submission.parts_of_result isResult
  refine ⟨?_, ?_, ?_⟩
  · rw [Submission.location_of_result isResult]
    exact Submission.canonical_of_accepted accepted
  · intro span member
    rw [isCut] at member
    obtain ⟨whole, isWhole, rfl⟩ := List.mem_map.mp member
    apply AttributePolicy.filled_cut
    rcases Submission.mem_merged isWhole with
      submitted | ⟨previous, isStored, kept⟩
    · obtain ⟨_, _, _, _, _, isAccepted⟩ :=
        Submission.sent_of_accepted accepted submitted
      exact Check.filled_of_checkSpan isAccepted
    · exact (before previous isStored).2.filled whole kept
  · intro underway
    rw [isCut, AttributePolicy.keepsPlaces_cut.treeViolations]
    rcases Submission.checked_or_kept accepted isResult with
      checked | ⟨_, previous, isStored, kept⟩
    · rw [← underway]
      exact checked
    · rw [kept]
      obtain ⟨wasUnderway, resubmittable⟩ := before previous isStored
      exact resubmittable.passes wasUnderway

/-- Tags do not matter. -/
theorem withTags
    (resubmittable : trace.Resubmittable settings) (tags : KeyMap String) :
    (trace.withTags tags).Resubmittable settings :=
  ⟨resubmittable.canonical, resubmittable.filled, resubmittable.passes⟩

/-- What a request makes of a trace that can be submitted again can be submitted
again. -/
theorem of_makes
    {request : Request} {previous : Option StoredTrace}
    (makes : request.Makes settings previous trace)
    (before : ∀ stored, previous = some stored →
      stored.trace.Resubmittable settings) :
    trace.Resubmittable settings := by
  cases makes with
  | created fits isResult => exact of_result fits.accepted isResult (by simp)
  | @updated _ _ _ _ stored _ fits updatable isResult =>
      refine of_result fits.accepted isResult ?_
      rintro _ ⟨⟩
      exact
        ⟨(Submission.updatable_iff.mp updatable).1, before stored rfl⟩
  | @tagged _ _ _ _ _ stored _ => exact (before stored rfl).withTags _
  | @untagged _ _ _ _ stored _ _ => exact (before stored rfl).withTags _

end Trace.Resubmittable

theorem Life.resubmittable
    {Client : Type} {settings : Settings} {requests : Client → Request}
    {id : String} {commits : List (Commit Client)}
    (life : Life settings requests id commits) :
    ∀ record ∈ recordsOf commits, record.trace.Resubmittable settings :=
  life.forall_of_makes fun _ _ _ makes before =>
    Trace.Resubmittable.of_makes makes fun stored isStored =>
      (before stored isStored).2

/-! ## The submission of a stored trace -/

/-- Whether a message is accepted as a submission that leads from the trace that
it is about to the same trace. -/
structure Submission.Repeats (settings : Settings) (message : Wire.Trace)
    (trace : Trace) (submission : Submission) (result : Trace) : Prop where
  accepted : Submission.ofRequest settings message = .ok submission
  named : submission.traceId? = some trace.id
  own : submission.foreignSpans trace.id = []
  located : submission.info.location = trace.info.location
  updatable :
    Submission.checkUpdatable trace.info submission.info = .ok ()
  isResult : submission.result settings (some trace) trace.id = .ok result
  same : result.Same trace

/-- The policy has nothing left to cut off spans that are the same as those of a
stored trace. -/
theorem AttributePolicy.apply_of_same
    {settings : Settings} {trace : Trace} {spans : List Span}
    (wellFormed : trace.WellFormed settings)
    (same : List.Forall₂ Span.Same spans trace.spans) :
    settings.attributes.apply spans = spans := by
  rw [apply_eq_map]
  refine (List.map_congr_left fun span member => ?_).trans (List.map_id spans)
  obtain ⟨original, isOriginal, sameSpan⟩ := exists_of_forall₂ same member
  exact Spares.cut (sameSpan.spares fun maximum enforced =>
    wellFormed.bounded maximum enforced original isOriginal)

/-- The message about a stored trace in progress leads to the same trace, if the
submitted spans take the place of the stored ones. -/
theorem Trace.Resubmittable.repeats
    {settings : Settings} {trace : Trace}
    (resubmittable : trace.Resubmittable settings)
    (wellFormed : trace.WellFormed settings)
    (underway : trace.info.state = .inProgress)
    (replaces : settings.updateMode = .replace) :
    ∃ message, Wire.Trace.ofTrace trace = .ok message ∧
      ∃ submission result,
        Submission.Repeats settings message trace submission result := by
  obtain ⟨messages, written⟩ :=
    Wire.Span.ofSpans_of_fit fun span member =>
      (wellFormed.sound span member).fit
  obtain ⟨draft, isDraft, named, isInfo⟩ :=
    Check.checkInfo_ofInfo wellFormed.key resubmittable.canonical
  have sameInfo : draft.toInfo trace.id = trace.info := isInfo
  obtain ⟨spans, accepted, same⟩ :=
    exists_between_of_forall₂
      (Check.checkSpans_ofSpans written
        (fun span member => (wellFormed.sound span member).checked)
        resubmittable.filled)
  have located : draft.location = trace.info.location :=
    congrArg TraceInfo.location sameInfo
  have sameState : draft.state = .inProgress :=
    (congrArg TraceInfo.state sameInfo).trans underway
  have passes :
      Check.treeViolations (settings.validation.modeFor draft.state) spans =
        [] := by
    rw [sameState, Check.treeViolations_of_same same]
    exact resubmittable.passes underway
  let submission : Submission := ⟨draft, some spans⟩
  let result : Trace := ⟨trace.info, spans⟩
  refine ⟨{ info := some (Wire.TraceInfo.ofInfo trace.info),
            spans := some messages }, ?_, submission, result, ?_⟩
  · simp only [Wire.Trace.ofTrace, written]
  · refine
      ⟨Submission.ofRequest_of_faultless isDraft accepted passes, ?_, ?_,
        located, ?_, ?_, ⟨rfl, same⟩⟩
    · simp only [Submission.traceId?, submission, named]
      rfl
    · apply Submission.foreignSpans_of_own
      intro span member
      obtain ⟨original, isOriginal, sameSpan⟩ := exists_of_forall₂ same member
      have sameTrace : span.traceId = original.traceId := by
        rw [sameSpan.others]
      rw [sameTrace]
      exact wellFormed.own original isOriginal
    · refine Submission.updatable_iff.mpr ⟨underway, located, ?_⟩
      rw [sameState]
      simp
    · have isResult :=
        @Submission.result_of_replaced settings replaces trace submission spans
          sameInfo rfl
      rw [AttributePolicy.apply_of_same wellFormed same] at isResult
      exact isResult

/-! ## Running it -/

namespace Traffic

variable {Client : Type} [DecidableEq Client]

/-- After any run from the empty store under settings by which submitted spans
take the place of stored ones, the message about a stored trace in progress can
be submitted by every client whom nothing keeps from writing it. It succeeds and
leaves the same trace, its spans in the same order and with the same counts, in
the next version. -/
theorem resubmitted_of_run
    (settings : Settings) (replaces : settings.updateMode = .replace)
    (requests : Client → Request) (ids : IdSequence)
    (turns : List (Turn Client)) {id : String} {record : StoredTrace}
    (stored :
      ((start settings requests (World.initial ids)).run
        turns).world.store.get? id = some record)
    (underway : record.trace.info.state = .inProgress) :
    ∃ message, Wire.Trace.ofTrace record.trace = .ok message ∧
      ∀ (world : World) (conditions : Conditions) (principal : Option String)
        (timeout : Nat),
        world.store.get? id = some record →
        world.Admits conditions id record.trace.info.location principal →
          let outcome :=
            (Service.submit settings principal message).run.runWithin
              conditions.alone timeout world
          ∃ trace, outcome.2 = .ok trace ∧ trace.Same record.trace ∧
            outcome.1.store.get? id = some ⟨trace, record.version + 1⟩ ∧
              ∀ other, other ≠ id →
                outcome.1.store.get? other = world.store.get? other := by
  obtain ⟨life, current⟩ := life_of_run settings requests ids turns id
  rw [current] at stored
  have member := List.mem_of_getLast? stored
  have isId : record.trace.id = id := life.named record member
  obtain ⟨message, written, submission, trace, repeats⟩ :=
    (life.resubmittable record member).repeats (life.wellFormed record member)
      underway replaces
  refine ⟨message, written, ?_⟩
  intro world conditions principal timeout inWorld admits outcome
  subst isId
  obtain ⟨succeeds, left⟩ :=
    admits.runWithin_submit repeats.accepted repeats.named repeats.own
      repeats.located inWorld (life.version_pos member) repeats.updatable
      repeats.isResult timeout
  have sameId : trace.id = record.trace.id :=
    Submission.id_of_result repeats.isResult
  refine ⟨trace, succeeds, repeats.same, ?_, ?_⟩
  · rw [left, ← sameId]
    exact TraceStore.get?_put_self _ _
  · intro other different
    rw [left]
    exact TraceStore.get?_put_of_ne _ (sameId ▸ different)

/-- A message in progress with two attributes on its only span. -/
def busyMessage : Wire.Trace where
  info :=
    some
      { location := some { experiment := some (some "1") }
        requestTime := some default
        state := some .inProgress }
  spans :=
    some
      [{ traceId := some ⟨[1]⟩
         spanId := some ⟨[2]⟩
         name := some "root"
         startTime := some 1
         endTime := some 2
         attributes :=
           (KeyMap.empty.insert "first" (.boolean true)).insert "second" .null }]

/-- A trace that has lost an attribute loses none when it is submitted again. -/
theorem resubmitted_busyMessage :
    let settings : Settings := { attributes := .enforce 1 }
    let final :=
      (start settings (fun _ : Unit => .submit none busyMessage)
          (World.initial (.start 0))).run
        (List.replicate 6 { client := () })
    ∃ record, final.world.store.get? "01" = some record ∧
      record.trace.spans.map Span.droppedAttributes = [1] ∧
        ∃ message, Wire.Trace.ofTrace record.trace = .ok message ∧
          let outcome :=
            (Service.submit settings none message).run.runWithin
              (Conditions.alone {}) 0 final.world
          ∃ trace, outcome.2 = .ok trace ∧ trace.Same record.trace ∧
            outcome.1.store.get? "01" = some ⟨trace, record.version + 1⟩ ∧
              ∀ other, other ≠ "01" →
                outcome.1.store.get? other =
                  final.world.store.get? other := by
  intro settings final
  have isStored :
      (final.world.store.get? "01").map (fun record =>
          (record.trace.info.state, record.trace.info.location,
            record.trace.spans.map Span.droppedAttributes)) =
        some (.inProgress, .experiment "1", [1]) := by
    decide +kernel
  obtain ⟨record, isRecord, parts⟩ := Option.map_eq_some_iff.mp isStored
  simp only [Prod.mk.injEq] at parts
  obtain ⟨underway, location, dropped⟩ := parts
  obtain ⟨message, written, again⟩ :=
    resubmitted_of_run settings rfl _ (.start 0) _ isRecord underway
  refine ⟨record, isRecord, dropped, message, written, ?_⟩
  refine again final.world {} none 0 isRecord ⟨rfl, rfl, ?_, rfl⟩
  exact fun _ _ => Or.inr rfl

end Traffic

end TraceArchive
