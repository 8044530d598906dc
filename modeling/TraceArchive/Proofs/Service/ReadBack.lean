import TraceArchive.Proofs.Check.Written
import TraceArchive.Proofs.Service.WellFormed
import TraceArchive.Proofs.Wire.Received

/-!
# Stored traces are read back

The JSON body of a stored trace is read as a message that is accepted as this
trace again. What has to hold of a trace for that is seen to when its parts are
accepted, and nothing that happens to them later takes it away. The main
statement is `restored_of_run`.
-/

namespace TraceArchive

/-- What has to hold of a well-formed trace for its body to be accepted as the
trace again. -/
structure Trace.Restorable (trace : Trace) : Prop where
  canonical : Check.Canonical trace.info.location
  assessments :
    ∀ assessment ∈ trace.info.assessments,
      Json.Readable 124 (.object assessment)
  proper : ∀ span ∈ trace.spans, span.Proper

/-! ## Fewer attributes -/

theorem AttributePolicy.proper_cut
    {policy : AttributePolicy} {span : Span} (proper : span.Proper) :
    (policy.cut span).Proper := by
  cases policy with
  | trustClient => exact proper
  | enforce maximum =>
      refine ⟨proper.parent, ?_, ?_, ?_⟩
      · intro event member
        obtain ⟨whole, isWhole, rfl⟩ := List.mem_map.mp member
        exact proper.events whole isWhole
      · intro link member
        obtain ⟨whole, isWhole, rfl⟩ := List.mem_map.mp member
        exact proper.links whole isWhole
      · intro attributes member
        rw [cut, attributeMaps_cutSpan] at member
        obtain ⟨whole, isWhole, rfl⟩ := List.mem_map.mp member
        intro entry inFirst
        exact proper.ordered whole isWhole entry
          (KeyMap.mem_of_mem_take inFirst)

/-! ## Submissions -/

theorem Check.mem_of_mem_assessments
    {values : List Json} {assessment : Assessment}
    (member : assessment ∈ assessments values) :
    .object assessment ∈ values := by
  induction values with
  | nil => exact absurd member List.not_mem_nil
  | cons value rest inductionHypothesis =>
      cases value with
      | object entries =>
          rcases List.mem_cons.mp member with rfl | inRest
          · exact List.mem_cons_self
          · exact List.mem_cons_of_mem _ (inductionHypothesis inRest)
      | _ => exact List.mem_cons_of_mem _ (inductionHypothesis member)

namespace Submission

variable {settings : Settings} {message : Wire.Trace} {submission : Submission}

theorem proper_of_accepted
    (accepted : ofRequest settings message = .ok submission)
    (received : message.Received) :
    ∀ span ∈ submission.spanList, span.Proper := by
  intro span member
  obtain ⟨messages, areSpans, sent, inMessages, _, isAccepted⟩ :=
    sent_of_accepted accepted member
  exact
    Check.proper_of_checkSpan isAccepted
      (received.attributes messages areSpans sent inMessages)

theorem readable_of_accepted
    (accepted : ofRequest settings message = .ok submission)
    (received : message.Received) :
    ∀ assessment ∈ submission.info.assessments,
      Json.Readable 124 (.object assessment) := by
  intro assessment member
  obtain ⟨info, isSent, isDraft⟩ := draft_of_accepted accepted
  unfold Check.draft? at isDraft
  split at isDraft
  · rw [← Option.some.inj isDraft] at member
    exact received.assessments info isSent _
      (Check.mem_of_mem_assessments member)
  · cases isDraft

/-- The assessments that are stored were submitted now or before. -/
theorem mem_assessments_of_result
    {stored : Option Trace} {traceId : String} {trace : Trace}
    (isResult : submission.result settings stored traceId = .ok trace)
    {assessment : Assessment} (member : assessment ∈ trace.info.assessments) :
    assessment ∈ submission.info.assessments ∨
      ∃ previous, stored = some previous ∧
        assessment ∈ previous.info.assessments := by
  rw [(parts_of_result isResult).2.1] at member
  unfold merged at member
  cases stored with
  | none => exact Or.inl member
  | some previous =>
      simp only [mergeInfo] at member
      split at member
      · exact Or.inr ⟨previous, rfl, member⟩
      · exact Or.inl member

end Submission

/-! ## What is stored -/

namespace Trace.Restorable

variable {settings : Settings} {trace : Trace}

/-- What a submission leads to can be restored, if what was stored before
can. -/
theorem of_result
    {message : Wire.Trace} {submission : Submission} {stored : Option Trace}
    {traceId : String}
    (accepted : Submission.ofRequest settings message = .ok submission)
    (received : message.Received)
    (isResult : submission.result settings stored traceId = .ok trace)
    (before : ∀ previous, stored = some previous → previous.Restorable) :
    trace.Restorable := by
  refine ⟨?_, ?_, ?_⟩
  · rw [Submission.location_of_result isResult]
    exact Submission.canonical_of_accepted accepted
  · intro assessment member
    rcases Submission.mem_assessments_of_result isResult member with
      submitted | ⟨previous, isStored, kept⟩
    · exact Submission.readable_of_accepted accepted received assessment
        submitted
    · exact (before previous isStored).assessments assessment kept
  · intro span member
    rw [(Submission.parts_of_result isResult).2.2] at member
    obtain ⟨whole, isWhole, rfl⟩ := List.mem_map.mp member
    apply AttributePolicy.proper_cut
    rcases Submission.mem_merged isWhole with
      submitted | ⟨previous, isStored, kept⟩
    · exact Submission.proper_of_accepted accepted received whole submitted
    · exact (before previous isStored).proper whole kept

/-- Tags do not matter. -/
theorem withTags
    (restorable : trace.Restorable) (tags : KeyMap String) :
    (trace.withTags tags).Restorable :=
  ⟨restorable.canonical, restorable.assessments, restorable.proper⟩

end Trace.Restorable

/-- Whether the message of a request, if it has one, was read from a body. -/
def Request.Received : Request → Prop
  | .submit _ message =>
      ∃ (format : Wire.Format) (body : List UInt8),
        format.decode body = .ok message
  | _ => True

/-- What a request makes of a trace that can be restored can be restored. -/
theorem Trace.Restorable.of_makes
    {settings : Settings} {request : Request} {previous : Option StoredTrace}
    {trace : Trace} (makes : request.Makes settings previous trace)
    (received : request.Received)
    (before :
      ∀ stored, previous = some stored → stored.trace.Restorable) :
    trace.Restorable := by
  cases makes with
  | created fits isResult =>
      obtain ⟨format, body, decoded⟩ := received
      exact of_result fits.accepted (Wire.Format.received_of_decode decoded)
        isResult (by simp)
  | @updated _ _ _ _ stored _ fits _ isResult =>
      obtain ⟨format, body, decoded⟩ := received
      refine of_result fits.accepted (Wire.Format.received_of_decode decoded)
        isResult ?_
      rintro _ ⟨⟩
      exact before stored rfl
  | @tagged _ _ _ _ _ stored _ => exact (before stored rfl).withTags _
  | @untagged _ _ _ _ stored _ _ => exact (before stored rfl).withTags _

theorem Life.restorable
    {Client : Type} {settings : Settings} {requests : Client → Request}
    {id : String} {commits : List (Commit Client)}
    (received : ∀ client, (requests client).Received)
    (life : Life settings requests id commits) :
    ∀ record ∈ recordsOf commits, record.trace.Restorable :=
  life.forall_of_makes fun client _ _ makes before =>
    Trace.Restorable.of_makes makes (received client) fun stored isStored =>
      (before stored isStored).2

/-! ## Reading back -/

/-- Whether the parts of a message are accepted as those of a trace: what is
known of it as a whole exactly, its spans in their order and at whatever paths
up to signs of zeros. -/
structure Wire.Trace.Restores (message : Wire.Trace)
    (trace : TraceArchive.Trace) : Prop where
  info :
    ∃ info draft, message.info = some info ∧
      Check.checkInfo info = .ok draft ∧ draft.toInfo trace.id = trace.info
  spans :
    ∃ spans, message.spans = some spans ∧
      List.Forall₂
        (fun message original =>
          ∃ span, span.Same original ∧
            ∀ path, Check.checkSpan path message = .ok span)
        spans trace.spans

theorem Trace.Restorable.readBack
    {settings : Settings} {trace : Trace} (restorable : trace.Restorable)
    (wellFormed : trace.WellFormed settings) :
    ∃ body message, Wire.Format.json.encode trace = .ok body ∧
      Wire.Format.json.decode body = .ok message ∧
        message.Restores trace := by
  obtain ⟨spans, written⟩ :=
    Wire.Span.ofSpans_of_fit fun span member =>
      (wellFormed.sound span member).fit
  let message : Wire.Trace :=
    { info := some (Wire.TraceInfo.ofInfo trace.info), spans := some spans }
  have isMessage : Wire.Trace.ofTrace trace = .ok message := by
    simp only [Wire.Trace.ofTrace, written]
    rfl
  have legible : message.Legible := by
    constructor
    · rintro _ ⟨⟩
      exact Wire.TraceInfo.legible_ofInfo restorable.assessments
    · rintro _ ⟨⟩ span member
      have spanLegible :=
        Wire.Span.legible_of_ofSpans written restorable.proper span member
      exact spanLegible.mono (by decide)
  have restores : message.Restores trace := by
    constructor
    · obtain ⟨draft, checked, _, same⟩ :=
        Check.checkInfo_ofInfo wellFormed.key restorable.canonical
      exact ⟨_, draft, rfl, checked, same⟩
    · refine ⟨spans, rfl, ?_⟩
      exact Check.checkSpans_ofSpans written
        (fun span member => (wellFormed.sound span member).checked)
        fun span member => (restorable.proper span member).filled
  refine
    ⟨Wire.Format.json.encodeMessage message, message, ?_, ?_, restores⟩
  · simp only [Wire.Format.encode, isMessage]
  · exact Wire.Format.decode_encodeMessage legible

namespace Traffic

variable {Client : Type} [DecidableEq Client]

/-- Every stored trace is under its key, is well-formed and can be restored. -/
theorem restorable_of_run
    (settings : Settings) (requests : Client → Request) (ids : IdSequence)
    (turns : List (Turn Client))
    (received : ∀ client, (requests client).Received) :
    ∀ id record,
      ((start settings requests (World.initial ids)).run
          turns).world.store.get? id = some record →
        record.trace.id = id ∧ record.trace.WellFormed settings ∧
          record.trace.Restorable := by
  intro id record stored
  obtain ⟨life, current⟩ := life_of_run settings requests ids turns id
  rw [current] at stored
  have member := List.mem_of_getLast? stored
  exact
    ⟨life.named record member, life.wellFormed record member,
      life.restorable received record member⟩

/-- Whatever requests with messages in either format are made under whatever
settings, in whatever order their calls are answered and whichever of them fail:
the JSON body of every stored trace is read as a message whose parts are
accepted as those of the trace. -/
theorem restored_of_run
    (settings : Settings) (requests : Client → Request) (ids : IdSequence)
    (turns : List (Turn Client))
    (received : ∀ client, (requests client).Received) :
    ∀ id record,
      ((start settings requests (World.initial ids)).run
          turns).world.store.get? id = some record →
        ∃ body message, Wire.Format.json.encode record.trace = .ok body ∧
          Wire.Format.json.decode body = .ok message ∧
            message.Restores record.trace := by
  intro id record stored
  obtain ⟨life, current⟩ := life_of_run settings requests ids turns id
  rw [current] at stored
  have member := List.mem_of_getLast? stored
  have wellFormed := life.wellFormed record member
  have restorable := life.restorable received record member
  exact restorable.readBack wellFormed

/-- A message with one span, which has the negative zero as an attribute. -/
def zeroMessage : Wire.Trace where
  info :=
    some
      { location := some { experiment := some (some "1") }
        requestTime := some default }
  spans :=
    some
      [{ traceId := some ⟨[1]⟩
         spanId := some ⟨[2]⟩
         name := some "root"
         startTime := some 1
         endTime := some 2
         attributes :=
           KeyMap.empty.insert "ratio" (.number (.double (.ofRank true 0))) }]

theorem legible_zeroMessage : zeroMessage.Legible := by
  constructor
  · rintro _ ⟨⟩
    exact
      ⟨List.forall_mem_nil _, List.forall_mem_nil _, List.forall_mem_nil _⟩
  · rintro _ ⟨⟩ span member
    cases List.mem_singleton.mp member
    refine ⟨rfl, fun map isMap entry inMap => ?_⟩
    cases List.mem_singleton.mp isMap
    cases List.mem_singleton.mp inMap
    rfl

/-- The trace of one span is read back after it was submitted. -/
theorem restored_zeroMessage :
    let final :=
      (start {} (fun _ : Unit => .submit none zeroMessage)
          (World.initial (.start 0))).run
        (List.replicate 6 { client := () })
    ∃ record, final.world.store.get? "01" = some record ∧
      ∃ body message, Wire.Format.json.encode record.trace = .ok body ∧
        Wire.Format.json.decode body = .ok message ∧
          message.Restores record.trace := by
  intro final
  have isStored : (final.world.store.get? "01").isSome = true := by
    decide +kernel
  obtain ⟨record, isRecord⟩ := Option.isSome_iff_exists.mp isStored
  have received :
      ∀ client : Unit, (Request.submit none zeroMessage).Received :=
    fun _ =>
      ⟨.json, _, Wire.Format.decode_encodeMessage legible_zeroMessage⟩
  refine ⟨record, isRecord, ?_⟩
  exact restored_of_run {} _ (.start 0) _ received "01" record isRecord

end Traffic

end TraceArchive
