import TraceArchive.Proofs.Check.Proper
import TraceArchive.Proofs.Service.Lifecycle

/-!
# What submissions add up to

The trace that a sequence of submissions leaves is told from their messages
alone: of most parts the last that was given counts, of metadata and tags the
last under each key, and the spans are those of all messages or of the last one
with spans. Attributes are cut off only once, however often a span is stored
again. The main statement is `merged_of_run`.
-/

namespace TraceArchive

/-! ## What messages give -/

/-- The last value among those that messages give for a part of what is known of
a trace. -/
def lastGiven {Value : Type} (messages : List Wire.Trace)
    (part : Wire.TraceInfo → Option Value) : Option Value :=
  (messages.filterMap fun message => message.info.bind part).getLast?

/-- The spans that count, by what becomes of stored ones: those of all messages
in their order, or those of the last message with a part for them. -/
def sentSpans (mode : UpdateMode) (messages : List Wire.Trace) :
    List Wire.Span :=
  match mode with
  | .append => messages.flatMap fun message => message.spans.getD []
  | .replace =>
      (messages.filterMap fun message => message.spans).getLast?.getD []

/-- The assessments of a message, if there are any. -/
def Wire.TraceInfo.assessments? (info : Wire.TraceInfo) :
    Option (List Json) :=
  if info.assessments.isEmpty then none else some info.assessments

/-- Whether the parts of a trace that are kept up over submissions are what
messages add up to that were accepted one after another. -/
structure Trace.Accumulates (settings : Settings)
    (messages : List Wire.Trace) (trace : Trace) : Prop where
  metadata :
    ∀ key, (trace.info.metadata.find? key).map Json.string =
      lastGiven messages fun info => info.metadata.find? key
  tags :
    ∀ key, (trace.info.tags.find? key).map Json.string =
      lastGiven messages fun info => info.tags.find? key
  clientRequestId :
    trace.info.clientRequestId =
      lastGiven messages fun info => info.clientRequestId
  request : trace.info.request = lastGiven messages fun info => info.request
  response :
    trace.info.response = lastGiven messages fun info => info.response
  executionDuration :
    trace.info.executionDuration =
      lastGiven messages fun info => info.executionDuration
  assessments :
    trace.info.assessments.map Json.object =
      (lastGiven messages fun info => info.assessments?).getD []
  accepted :
    ∀ sent ∈ sentSpans settings.updateMode messages,
      ∃ path span, Check.checkSpan path sent = .ok span
  spans :
    trace.spans =
      settings.attributes.apply
        ((sentSpans settings.updateMode messages).filterMap Check.span?)

/-- Whether a trace is what messages add up to that were accepted one after
another. -/
structure Trace.IsMergeOf (settings : Settings) (messages : List Wire.Trace)
    (trace : Trace) : Prop extends
    Trace.Accumulates settings messages trace where
  requestTime :
    some trace.info.requestTime =
      messages.getLast?.bind fun message =>
        message.info.bind fun info => info.requestTime
  state :
    some trace.info.state = messages.getLast?.map Submission.declaredState

section Concat

variable {Value : Type} (messages : List Wire.Trace) (message : Wire.Trace)

theorem lastGiven_concat (part : Wire.TraceInfo → Option Value) :
    lastGiven (messages ++ [message]) part =
      (message.info.bind part).or (lastGiven messages part) := by
  unfold lastGiven
  rw [List.filterMap_append, List.getLast?_append]
  cases given : message.info.bind part with
  | none => simp [given]
  | some value => simp [given]

theorem sentSpans_append_concat :
    sentSpans .append (messages ++ [message]) =
      sentSpans .append messages ++ message.spans.getD [] := by
  rw [sentSpans, List.flatMap_append, List.flatMap_singleton, sentSpans]

theorem sentSpans_replace_concat :
    sentSpans .replace (messages ++ [message]) =
      message.spans.getD (sentSpans .replace messages) := by
  rw [sentSpans, List.filterMap_append, List.getLast?_append, sentSpans]
  cases sent : message.spans with
  | none => simp [sent]
  | some spans => simp [sent]

end Concat

/-! ## One more submission -/

namespace Submission

variable {settings : Settings} {message : Wire.Trace} {submission : Submission}
  {traceId : String} {trace : Trace}

theorem accepted_of_faultless
    {index : Nat} {messages : List Wire.Span}
    (faultless : spanViolations index messages = []) :
    acceptedSpans index messages = messages.filterMap Check.span? ∧
      ∀ sent ∈ messages, ∃ path span, Check.checkSpan path sent = .ok span := by
  induction messages generalizing index with
  | nil => exact ⟨rfl, List.forall_mem_nil _⟩
  | cons first rest inductionHypothesis =>
      rw [spanViolations, List.append_eq_nil_iff] at faultless
      obtain ⟨areRest, acceptedRest⟩ := inductionHypothesis faultless.2
      cases checked : Check.checkSpan (spanPath index) first with
      | error violations =>
          rw [checked] at faultless
          exact absurd faultless.1 (Check.violations_of_checkSpan checked)
      | ok span =>
          refine ⟨?_, List.forall_mem_cons.mpr ⟨⟨_, _, checked⟩, acceptedRest⟩⟩
          rw [List.filterMap_cons_some (Check.span_of_checkSpan checked),
            ← areRest]
          simp only [acceptedSpans, checked]

/-- Every span of an accepted message is accepted, in its place. -/
theorem spans_of_accepted
    (accepted : ofRequest settings message = .ok submission) :
    submission.spans = message.spans.map (List.filterMap Check.span?) ∧
      ∀ sent ∈ message.spans.getD [],
        ∃ path span, Check.checkSpan path sent = .ok span := by
  obtain ⟨faultless, _⟩ := faultless_of_accepted accepted
  obtain ⟨_, _, isSpans⟩ := parts_of_accepted accepted
  have ofSent := accepted_of_faultless (List.append_eq_nil_iff.mp faultless).2
  refine ⟨?_, ofSent.2⟩
  rw [isSpans]
  cases sent : message.spans with
  | none => rfl
  | some messages =>
      rw [sent] at ofSent
      exact congrArg some ofSent.1

/-! ### The merge with nothing -/

theorem orPrevious_eq_or {Value : Type} (value previous : Option Value) :
    orPrevious value previous = value.or previous := by
  cases value <;> rfl

/-- What a first submission is merged with. -/
def blank : Trace where
  info := TraceInfo.plain "" default default
  spans := []

theorem accumulates_blank (settings : Settings) :
    blank.Accumulates settings [] := by
  have noSpans : sentSpans settings.updateMode [] = [] := by
    cases settings.updateMode <;> rfl
  constructor
  case accepted =>
    rw [noSpans]
    exact List.forall_mem_nil _
  case spans =>
    rw [noSpans, AttributePolicy.apply_eq_map]
    rfl
  all_goals first | rfl | exact fun _ => rfl

/-- A first submission is merged like any other, with nothing. -/
theorem merged_eq (stored : Option Trace) :
    merged settings stored submission traceId =
      ⟨mergeInfo (stored.getD blank).info (submission.info.toInfo traceId),
        mergeSpans settings.updateMode (stored.getD blank).spans
          submission.spans⟩ := by
  cases stored with
  | none =>
      have isInfo :
          mergeInfo blank.info (submission.info.toInfo traceId) =
            submission.info.toInfo traceId := by
        have keptAll : ∀ map : KeyMap String, KeyMap.empty.union map = map :=
          KeyMap.ofList_entries
        have keptEach :
            ∀ assessments : List Assessment,
              (if assessments.isEmpty then [] else assessments) =
                assessments := by
          intro assessments
          cases assessments <;> rfl
        simp only [mergeInfo, blank, TraceInfo.plain, orPrevious_eq_or,
          Option.or_none, keptAll, keptEach]
      have areSpans :
          mergeSpans settings.updateMode [] submission.spans =
            submission.spanList := by
        unfold mergeSpans spanList
        split
        · rename_i isNone
          rw [isNone]
          rfl
        · rename_i spans isSome _
          rw [isSome]
          rfl
        · rename_i spans isSome _
          rw [isSome]
          rfl
      rw [Option.getD_none, isInfo]
      exact congrArg (Trace.mk _) areSpans.symm
  | some previous => rfl

end Submission

namespace Trace.Accumulates

variable {settings : Settings} {messages : List Wire.Trace}
  {message : Wire.Trace} {submission : Submission} {stored : Option Trace}
  {traceId : String} {trace : Trace}

theorem spans_of_result
    (accumulates : (stored.getD Submission.blank).Accumulates settings messages)
    (accepted : Submission.ofRequest settings message = .ok submission)
    (isResult : submission.result settings stored traceId = .ok trace) :
    trace.spans =
      settings.attributes.apply
        ((sentSpans settings.updateMode (messages ++ [message])).filterMap
          Check.span?) := by
  obtain ⟨_, _, isCut⟩ := Submission.parts_of_result isResult
  have isStored := accumulates.spans
  rw [AttributePolicy.apply_eq_map] at isStored ⊢
  rw [isCut, Submission.merged_eq, (Submission.spans_of_accepted accepted).1,
    isStored]
  have cutTwice :
      settings.attributes.cut ∘ settings.attributes.cut =
        settings.attributes.cut :=
    funext fun _ => AttributePolicy.cut_cut
  cases settings.updateMode with
  | append =>
      rw [sentSpans_append_concat, List.filterMap_append, List.map_append]
      cases message.spans with
      | none => simp [Submission.mergeSpans, cutTwice]
      | some sent => simp [Submission.mergeSpans, cutTwice]
  | replace =>
      rw [sentSpans_replace_concat]
      cases message.spans with
      | none => simp [Submission.mergeSpans, cutTwice]
      | some sent => simp [Submission.mergeSpans]

theorem orPrevious_eq_lastGiven
    {Value : Type} {info : Wire.TraceInfo}
    {part : Wire.TraceInfo → Option Value} {value previous : Option Value}
    (isSent : message.info = some info) (isGiven : value = part info)
    (before : previous = lastGiven messages part) :
    Submission.orPrevious value previous =
      lastGiven (messages ++ [message]) part := by
  rw [lastGiven_concat, isSent, Option.bind_some, ← isGiven, ← before]
  exact Submission.orPrevious_eq_or value previous

theorem find?_union_of_texts
    {previous submitted : KeyMap String} {sent : KeyMap Json}
    (areTexts : submitted.mapValues .string = sent) (key : String) :
    ((previous.union submitted).find? key).map Json.string =
      (sent.find? key).or ((previous.find? key).map Json.string) := by
  rw [← areTexts, KeyMap.find?_union, KeyMap.find?_mapValues, Option.map_or]

theorem assessments_of_merge
    {info : Wire.TraceInfo} {previous submitted : List Assessment}
    {earlier : Option (List Json)}
    (areObjects : submitted.map .object = info.assessments)
    (before : previous.map Json.object = earlier.getD []) :
    (if submitted.isEmpty then previous else submitted).map Json.object =
      (info.assessments?.or earlier).getD [] := by
  unfold Wire.TraceInfo.assessments?
  rw [← areObjects]
  cases submitted with
  | nil => exact before
  | cons first rest => rfl

/-- What was accumulated goes on to be with one more submission. -/
theorem of_result
    (accumulates : (stored.getD Submission.blank).Accumulates settings messages)
    (accepted : Submission.ofRequest settings message = .ok submission)
    (isResult : submission.result settings stored traceId = .ok trace) :
    trace.Accumulates settings (messages ++ [message]) := by
  obtain ⟨info, isSent, isDraft⟩ := Submission.info_of_accepted accepted
  have takes := Check.takes_of_checkInfo isDraft
  have isInfo := (Submission.parts_of_result isResult).2.1
  rw [Submission.merged_eq] at isInfo
  constructor
  case metadata =>
    intro key
    rw [isInfo, lastGiven_concat, isSent, ← accumulates.metadata]
    exact find?_union_of_texts takes.metadata key
  case tags =>
    intro key
    rw [isInfo, lastGiven_concat, isSent, ← accumulates.tags]
    exact find?_union_of_texts takes.tags key
  case clientRequestId =>
    rw [isInfo]
    exact orPrevious_eq_lastGiven isSent takes.clientRequestId
      accumulates.clientRequestId
  case request =>
    rw [isInfo]
    exact orPrevious_eq_lastGiven isSent takes.request
      accumulates.request
  case response =>
    rw [isInfo]
    exact orPrevious_eq_lastGiven isSent takes.response
      accumulates.response
  case executionDuration =>
    rw [isInfo]
    exact orPrevious_eq_lastGiven isSent takes.executionDuration
      accumulates.executionDuration
  case assessments =>
    rw [isInfo, lastGiven_concat, isSent, Option.bind_some]
    exact assessments_of_merge takes.assessments accumulates.assessments
  case accepted =>
    have ofMessage := (Submission.spans_of_accepted accepted).2
    have ofMessages := accumulates.accepted
    cases mode : settings.updateMode with
    | append =>
        rw [mode] at ofMessages
        rw [sentSpans_append_concat]
        exact List.forall_mem_append.mpr ⟨ofMessages, ofMessage⟩
    | replace =>
        rw [mode] at ofMessages
        rw [sentSpans_replace_concat]
        cases areSent : message.spans with
        | none => exact ofMessages
        | some sent =>
            rw [areSent] at ofMessage
            exact ofMessage
  case spans => exact accumulates.spans_of_result accepted isResult

end Trace.Accumulates

theorem Trace.IsMergeOf.of_result
    {settings : Settings} {messages : List Wire.Trace} {message : Wire.Trace}
    {submission : Submission} {stored : Option Trace} {traceId : String}
    {trace : Trace}
    (accumulates : (stored.getD Submission.blank).Accumulates settings messages)
    (accepted : Submission.ofRequest settings message = .ok submission)
    (isResult : submission.result settings stored traceId = .ok trace) :
    trace.IsMergeOf settings (messages ++ [message]) := by
  obtain ⟨info, isSent, isDraft⟩ := Submission.info_of_accepted accepted
  have takes := Check.takes_of_checkInfo isDraft
  refine ⟨accumulates.of_result accepted isResult, ?_, ?_⟩
  · rw [(Submission.parts_of_result isResult).2.1, Submission.merged_eq,
      List.getLast?_concat, Option.bind_some, isSent, Option.bind_some,
      ← takes.requestTime]
    rfl
  · rw [Submission.state_of_result isResult,
      ← Submission.state_of_accepted accepted, List.getLast?_concat]
    rfl

/-! ## Sequences of submissions -/

/-- The message that a request submits. -/
def Request.message? : Request → Option Wire.Trace
  | .submit _ message => some message
  | _ => none

/-- What a submission makes of a stored trace is the result of merging it. -/
theorem Request.Makes.result
    {settings : Settings} {request : Request} {previous : Option StoredTrace}
    {trace : Trace} {message : Wire.Trace}
    (makes : request.Makes settings previous trace)
    (submits : request.message? = some message) :
    ∃ submission traceId,
      Submission.ofRequest settings message = .ok submission ∧
        submission.result settings (previous.map StoredTrace.trace) traceId =
          .ok trace := by
  cases makes with
  | created fits isResult =>
      cases submits
      exact ⟨_, _, fits.accepted, isResult⟩
  | updated fits _ isResult =>
      cases submits
      exact ⟨_, _, fits.accepted, isResult⟩
  | tagged _ => cases submits
  | untagged _ _ => cases submits

namespace Life

variable {Client : Type} {settings : Settings} {requests : Client → Request}
  {id : String} {commits : List (Commit Client)}

/-- The last trace of a life of submissions is what they add up to. -/
theorem isMergeOf
    (life : Life settings requests id commits) {messages : List Wire.Trace}
    (submitted :
      commits.map (fun commit => (requests commit.client).message?) =
        messages.map some)
    {record : StoredTrace} (isLast : (recordsOf commits).getLast? = some record) :
    record.trace.IsMergeOf settings messages := by
  induction life generalizing messages record with
  | unborn => cases isLast
  | @made commits commit earlier makes _ _ inductionHypothesis =>
      rw [recordsOf_concat, List.getLast?_concat] at isLast
      cases isLast
      rw [List.map_append] at submitted
      obtain ⟨before, after, rfl, areBefore, isAfter⟩ :=
        List.map_eq_append_iff.mp submitted.symm
      obtain ⟨message, rfl, submits⟩ := List.map_eq_singleton_iff.mp isAfter
      obtain ⟨submission, traceId, accepted, isResult⟩ :=
        makes.result submits.symm
      refine Trace.IsMergeOf.of_result ?_ accepted isResult
      cases isPrevious : (recordsOf commits).getLast? with
      | none =>
          have noCommits : commits = [] :=
            List.map_eq_nil_iff.mp (List.getLast?_eq_none_iff.mp isPrevious)
          rw [noCommits] at areBefore
          cases List.map_eq_nil_iff.mp areBefore
          exact Submission.accumulates_blank settings
      | some previous =>
          exact (inductionHypothesis areBefore.symm isPrevious).toAccumulates

end Life

namespace Traffic

variable {Client : Type} [DecidableEq Client]

/-- If only submissions have written under an identifier, the trace that is
stored there is what their messages add up to, in the order in which they were
written. In particular its spans depend on nothing but the spans that were sent,
however these were divided among the messages. -/
theorem merged_of_run
    (settings : Settings) (requests : Client → Request) (ids : IdSequence)
    (turns : List (Turn Client)) {id : String} {messages : List Wire.Trace}
    (submitted :
      (((start settings requests (World.initial ids)).run turns).commits id).map
          (fun commit => (requests commit.client).message?) =
        messages.map some)
    {record : StoredTrace}
    (stored :
      ((start settings requests (World.initial ids)).run
        turns).world.store.get? id = some record) :
    record.trace.IsMergeOf settings messages ∧
      ∀ (others : List Wire.Trace) (other : Trace),
        other.IsMergeOf settings others →
        sentSpans settings.updateMode others =
            sentSpans settings.updateMode messages →
          other.spans = record.trace.spans := by
  obtain ⟨life, current⟩ := life_of_run settings requests ids turns id
  rw [current] at stored
  have isMerge := life.isMergeOf submitted stored
  refine ⟨isMerge, ?_⟩
  intro others other isOther sameSpans
  rw [isOther.spans, sameSpans, isMerge.spans]

/-- The clients that submit parts of one trace. -/
inductive Author where
  | first
  | second
  | last
deriving DecidableEq

/-- Three messages about one trace. The first has a span with two attributes, the
second has no part for spans, and the third ends the trace with another span. -/
def partMessage : Author → Wire.Trace
  | .first =>
      { info :=
          some
            { location := some { experiment := some (some "1") }
              requestTime := some default
              state := some .inProgress
              metadata :=
                (KeyMap.empty.insert "model" (.string "first")).insert "run"
                  (.string "7") }
        spans :=
          some
            [{ traceId := some ⟨[1]⟩
               spanId := some ⟨[2]⟩
               name := some "root"
               startTime := some 1
               endTime := some 4
               attributes :=
                 (KeyMap.empty.insert "first" (.boolean true)).insert "second"
                   .null }] }
  | .second =>
      { info :=
          some
            { traceId := some "01"
              location := some { experiment := some (some "1") }
              requestTime := some default
              state := some .inProgress
              metadata := KeyMap.empty.insert "model" (.string "second") } }
  | .last =>
      { info :=
          some
            { location := some { experiment := some (some "1") }
              requestTime := some default
              response := some "done"
              state := some .ok }
        spans :=
          some
            [{ traceId := some ⟨[1]⟩
               spanId := some ⟨[3]⟩
               parentId := some ⟨[2]⟩
               name := some "step"
               startTime := some 2
               endTime := some 3 }] }

/-- Each of three clients submits its message. -/
def partRequest (client : Author) : Request :=
  .submit none (partMessage client)

/-- Each client is done before the next one starts. -/
def partTurns : List (Turn Author) :=
  [.first, .second, .last].flatMap fun client => List.replicate 6 { client }

/-- The three messages add up, and the attribute that was cut off first is
counted once. -/
theorem merged_partMessage :
    let settings : Settings :=
      { updateMode := .append, attributes := .enforce 1 }
    let messages := [partMessage .first, partMessage .second, partMessage .last]
    let final :=
      (start settings partRequest (World.initial (.start 0))).run partTurns
    ∃ record, final.world.store.get? "01" = some record ∧
      record.trace.info.metadata.entries =
          [("model", "second"), ("run", "7")] ∧
        record.trace.spans.map Span.droppedAttributes = [1, 0] ∧
          record.trace.IsMergeOf settings messages ∧
            ∀ (others : List Wire.Trace) (other : Trace),
              other.IsMergeOf settings others →
              sentSpans settings.updateMode others =
                  sentSpans settings.updateMode messages →
                other.spans = record.trace.spans := by
  intro settings messages final
  have isStored :
      (final.world.store.get? "01").map (fun record =>
          (record.trace.info.metadata.entries,
            record.trace.spans.map Span.droppedAttributes)) =
        some ([("model", "second"), ("run", "7")], [1, 0]) := by
    decide +kernel
  have writers :
      (final.commits "01").map Commit.client = [.first, .second, .last] := by
    decide +kernel
  have submitted :
      (final.commits "01").map
          (fun commit => (partRequest commit.client).message?) =
        messages.map some := by
    have ofWriters :=
      congrArg (List.map fun client => (partRequest client).message?) writers
    rw [List.map_map] at ofWriters
    exact ofWriters
  obtain ⟨record, isRecord, parts⟩ := Option.map_eq_some_iff.mp isStored
  rw [Prod.mk.injEq] at parts
  obtain ⟨metadata, dropped⟩ := parts
  refine ⟨record, isRecord, metadata, dropped, ?_⟩
  -- Otherwise the run would be evaluated to compare it with itself.
  with_reducible
    exact
      merged_of_run settings partRequest (.start 0) partTurns submitted isRecord

end Traffic

end TraceArchive
