import TraceArchive.Proofs.Check.Report

/-!
# Parts that are lacking

What is checked is built in parts, some of which cannot be done without: the
location and the time of a request, the identifiers, the name and the times of a
span, the names of events and the identifiers of links. Whenever such a part is
lacking the report names it, so that nothing is ever refused as incomplete
without a reason. The main statements are `accounts_checkInfo` and
`accounts_checkSpan`.
-/

namespace TraceArchive.Check

/-! ## Checks that account for what is lacking -/

section Accounts

variable {Value : Type} {lacks : Violation → Prop}
  {checked : Except (List Violation) Value} {violations : List Violation}

/-- Whether a check passes only what lacks nothing. Otherwise it tells all that
is lacking, and never that something is incomplete for no known reason. -/
def Accounts (lacks : Violation → Prop) :
    Except (List Violation) Value → Prop
  | .ok _ => ∀ violation, ¬lacks violation
  | .error violations =>
      violations ≠ [] ∧ .malformedTrace .incomplete ∉ violations ∧
        ∀ violation, lacks violation → violation ∈ violations

theorem Accounts.nonEmpty
    (accounts : Accounts lacks checked) (refused : checked = .error violations) :
    violations ≠ [] := by
  subst refused
  exact accounts.1

theorem Accounts.known
    (accounts : Accounts lacks checked) (refused : checked = .error violations) :
    .malformedTrace .incomplete ∉ violations := by
  subst refused
  exact accounts.2.1

/-- What lacks something is refused, and this is told. -/
theorem Accounts.refused
    {violation : Violation} (accounts : Accounts lacks checked)
    (lacking : lacks violation) :
    ∃ violations, checked = .error violations ∧ violation ∈ violations := by
  cases checked with
  | ok value => exact absurd lacking (accounts violation)
  | error violations => exact ⟨violations, rfl, accounts.2.2 violation lacking⟩

end Accounts

/-! ## The information about a trace -/

/-- Whether a part that the information about a trace cannot do without is
lacking, and this is the violation that names it. -/
inductive InfoLacks (info : Wire.TraceInfo) : Violation → Prop
  | location {violation : Violation} :
      checkLocation info.location = .error violation → InfoLacks info violation
  | requestTime :
      info.requestTime = none →
        InfoLacks info (.missingField "info.request_time")

/-- Whether a violation names the location. -/
def NamesLocation (violation : Violation) : Prop :=
  violation.subject? = some "trace_location" ∨
    ∃ rest, violation.subject? = some (locationField ++ rest)

section Info

variable {info : Wire.TraceInfo}

theorem namesLocation_of_canonicalTableName
    {given : String} {violation : Violation}
    (refused : canonicalTableName given = .error violation) :
    NamesLocation violation := by
  unfold canonicalTableName at refused
  split at refused
  · split at refused
    · cases refused
    · cases refused
      exact Or.inl rfl
  · cases refused
    exact Or.inl rfl

theorem namesLocation_of_checkExperiment
    {identifier : Option String} {violation : Violation}
    (refused : checkExperiment identifier = .error violation) :
    NamesLocation violation := by
  unfold checkExperiment at refused
  split at refused
  · cases refused
    exact Or.inr ⟨_, rfl⟩
  · cases refused

theorem namesLocation_of_checkTable
    {fullName : Option String} {violation : Violation}
    (refused : checkTable fullName = .error violation) :
    NamesLocation violation := by
  unfold checkTable at refused
  split at refused
  · cases refused
    exact Or.inr ⟨_, rfl⟩
  · split at refused
    · rename_i unnamed
      cases refused
      exact namesLocation_of_canonicalTableName unnamed
    · cases refused

theorem namesLocation_of_bind
    {checked : Except Violation TraceLocation} {declared : Option LocationKind}
    {violation : Violation}
    (ofChecked :
      ∀ found, checked = .error found → NamesLocation found)
    (refused : checked.bind (withKind declared) = .error violation) :
    NamesLocation violation := by
  cases checked with
  | error found =>
      cases refused
      exact ofChecked _ rfl
  | ok location =>
      change withKind declared location = .error violation at refused
      unfold withKind at refused
      split at refused
      · cases refused
      · cases refused
        exact Or.inl rfl

/-- Whatever is wrong with a location is said of the location. -/
theorem namesLocation_of_checkLocation
    {location : Option Wire.Location} {violation : Violation}
    (refused : checkLocation location = .error violation) :
    NamesLocation violation := by
  unfold checkLocation at refused
  split at refused
  · cases refused
    exact Or.inr ⟨"", rfl⟩
  · split at refused
    · cases refused
      exact Or.inl rfl
    · cases refused
      exact Or.inr ⟨"", rfl⟩
    · exact
        namesLocation_of_bind (fun _ => namesLocation_of_checkExperiment)
          refused
    · exact
        namesLocation_of_bind (fun _ => namesLocation_of_checkTable) refused

theorem draft?_eq_none_iff :
    draft? info = none ↔ ∃ violation, InfoLacks info violation := by
  unfold draft?
  constructor
  · intro unbuilt
    split at unbuilt
    · cases unbuilt
    · rename_i notBoth
      cases isLocation : checkLocation info.location with
      | error violation => exact ⟨violation, .location isLocation⟩
      | ok location =>
          cases isTime : info.requestTime with
          | none => exact ⟨_, .requestTime isTime⟩
          | some time => exact absurd isTime (notBoth location time isLocation)
  · rintro ⟨violation, refused | absent⟩
    · rw [refused]
    · rw [absent]
      split
      · rename_i isTime
        cases isTime
      · rfl

theorem mem_infoViolations_of_lacks
    {violation : Violation} (lacks : InfoLacks info violation) :
    violation ∈ infoViolations info := by
  simp only [infoViolations, List.mem_append]
  cases lacks with
  | location refused =>
      have told : locationViolations info = [violation] := by
        rw [locationViolations, refused]
      simp only [told, List.mem_singleton, true_or]
  | requestTime absent =>
      have told :
          requestTimeViolations info =
            [.missingField "info.request_time"] := by
        rw [requestTimeViolations, absent]
      simp only [told, List.mem_singleton, or_true, true_or]

/-- The information about a trace is never refused as incomplete without a
reason. -/
theorem incomplete_not_mem_infoViolations :
    Violation.malformedTrace .incomplete ∉ infoViolations info := by
  have notLocation :
      Violation.malformedTrace .incomplete ∉ locationViolations info := by
    unfold locationViolations
    split
    · exact List.not_mem_nil
    · rename_i violation refused
      rw [List.mem_singleton]
      rintro rfl
      rcases namesLocation_of_checkLocation refused with named | ⟨_, named⟩
      · cases named
      · cases named
  have notTime :
      Violation.malformedTrace .incomplete ∉ requestTimeViolations info := by
    unfold requestTimeViolations
    split <;> simp
  have notTraceId :
      Violation.malformedTrace .incomplete ∉ traceIdViolations info := by
    unfold traceIdViolations
    split
    · exact List.not_mem_nil
    · split <;> simp
  have notText :
      ∀ field map,
        Violation.malformedTrace .incomplete ∉ textViolations field map := by
    intro field map member
    obtain ⟨entry, -, isViolation⟩ := List.mem_filterMap.mp member
    unfold textViolation? at isViolation
    split at isViolation
    · cases isViolation
    · cases isViolation
  have notAssessment :
      ∀ index values,
        Violation.malformedTrace .incomplete ∉
          assessmentViolations index values := by
    intro index values
    induction values generalizing index with
    | nil => exact List.not_mem_nil
    | cons value rest inductionHypothesis =>
        cases value <;>
          simp [assessmentViolations, inductionHypothesis (index + 1)]
  simp only [infoViolations, List.mem_append, notLocation, notTime, notTraceId,
    notText, notAssessment, or_self, not_false_eq_true]

/-- The information about a trace is refused with the violations of its fields.
There are some, since there is one for each part that is lacking. -/
theorem accounts_checkInfo (info : Wire.TraceInfo) :
    Accounts (InfoLacks info) (checkInfo info) := by
  have told := @mem_infoViolations_of_lacks info
  have known := @incomplete_not_mem_infoViolations info
  unfold checkInfo
  cases listed : infoViolations info with
  | nil =>
      rw [listed] at told
      cases isDraft : draft? info with
      | some draft =>
          intro violation lacks
          cases told lacks
      | none =>
          -- The fallback: a lacking part would have been listed.
          obtain ⟨violation, lacks⟩ := draft?_eq_none_iff.mp isDraft
          cases told lacks
  | cons first rest =>
      rw [listed] at told known
      exact ⟨List.cons_ne_nil first rest, known, fun _ => told⟩

end Info

/-! ## Spans -/

/-- Whether a part that the span at a path cannot do without is lacking, and this
is the violation that names it. -/
inductive SpanLacks (path : String) (message : Wire.Span) : Violation → Prop
  | traceId :
      properId? message.traceId = none →
        SpanLacks path message (.missingField (path ++ ".trace_id"))
  | spanId :
      properId? message.spanId = none →
        SpanLacks path message (.missingField (path ++ ".span_id"))
  | name :
      properText? message.name = none →
        SpanLacks path message (.missingField (path ++ ".name"))
  | startTime :
      message.startTime = none →
        SpanLacks path message
          (.missingField (path ++ ".start_time_unix_nano"))
  | endTime :
      message.endTime = none →
        SpanLacks path message (.missingField (path ++ ".end_time_unix_nano"))
  | eventName {index : Nat} {event : Wire.Event} :
      message.events[index]? = some event → properText? event.name = none →
        SpanLacks path message
          (.missingField
            (AttributeValue.itemPath (path ++ ".events") index ++ ".name"))
  | linkTraceId {index : Nat} {link : Wire.Link} :
      message.links[index]? = some link → properId? link.traceId = none →
        SpanLacks path message
          (.missingField
            (AttributeValue.itemPath (path ++ ".links") index ++ ".trace_id"))
  | linkSpanId {index : Nat} {link : Wire.Link} :
      message.links[index]? = some link → properId? link.spanId = none →
        SpanLacks path message
          (.missingField
            (AttributeValue.itemPath (path ++ ".links") index ++ ".span_id"))

/-- Whether the span of a message, one of its events or one of its links cannot
be built. -/
def Unbuilt (message : Wire.Span) : Prop :=
  span? message = none ∨ (∃ event ∈ message.events, event? event = none) ∨
    ∃ link ∈ message.links, link? link = none

theorem event?_eq_none_iff {event : Wire.Event} :
    event? event = none ↔ properText? event.name = none := by
  unfold event?
  cases properText? event.name <;> simp

theorem link?_eq_none_iff {link : Wire.Link} :
    link? link = none ↔
      properId? link.traceId = none ∨ properId? link.spanId = none := by
  unfold link?
  cases properId? link.traceId <;> cases properId? link.spanId <;> simp

theorem span?_eq_none_iff {message : Wire.Span} :
    span? message = none ↔
      properId? message.traceId = none ∨ properId? message.spanId = none ∨
        properText? message.name = none ∨ message.startTime = none ∨
          message.endTime = none := by
  unfold span?
  cases properId? message.traceId <;> cases properId? message.spanId <;>
    cases properText? message.name <;> cases message.startTime <;>
    cases message.endTime <;> simp

/-- Something cannot be built just when a part of it is lacking. -/
theorem unbuilt_iff (path : String) {message : Wire.Span} :
    Unbuilt message ↔ ∃ violation, SpanLacks path message violation := by
  unfold Unbuilt
  rw [span?_eq_none_iff]
  constructor
  · rintro ((lacks | lacks | lacks | lacks | lacks) |
      ⟨event, member, unbuilt⟩ | ⟨link, member, unbuilt⟩)
    · exact ⟨_, .traceId lacks⟩
    · exact ⟨_, .spanId lacks⟩
    · exact ⟨_, .name lacks⟩
    · exact ⟨_, .startTime lacks⟩
    · exact ⟨_, .endTime lacks⟩
    · obtain ⟨index, isEvent⟩ := List.getElem?_of_mem member
      exact ⟨_, .eventName isEvent (event?_eq_none_iff.mp unbuilt)⟩
    · obtain ⟨index, isLink⟩ := List.getElem?_of_mem member
      rcases link?_eq_none_iff.mp unbuilt with lacks | lacks
      · exact ⟨_, .linkTraceId isLink lacks⟩
      · exact ⟨_, .linkSpanId isLink lacks⟩
  · rintro ⟨violation, lacks⟩
    cases lacks with
    | traceId lacks => exact Or.inl (Or.inl lacks)
    | spanId lacks => exact Or.inl (Or.inr (Or.inl lacks))
    | name lacks => exact Or.inl (Or.inr (Or.inr (Or.inl lacks)))
    | startTime lacks => exact Or.inl (Or.inr (Or.inr (Or.inr (Or.inl lacks))))
    | endTime lacks => exact Or.inl (Or.inr (Or.inr (Or.inr (Or.inr lacks))))
    | eventName isEvent lacks =>
        exact
          Or.inr (Or.inl
            ⟨_, List.mem_of_getElem? isEvent, event?_eq_none_iff.mpr lacks⟩)
    | linkTraceId isLink lacks =>
        exact
          Or.inr (Or.inr
            ⟨_, List.mem_of_getElem? isLink,
              link?_eq_none_iff.mpr (Or.inl lacks)⟩)
    | linkSpanId isLink lacks =>
        exact
          Or.inr (Or.inr
            ⟨_, List.mem_of_getElem? isLink,
              link?_eq_none_iff.mpr (Or.inr lacks)⟩)

section Span

variable {path : String} {message : Wire.Span} {violation : Violation}

/-- What is reported of the fields of a span is what is wrong at some place. -/
theorem mem_fieldViolations_iff :
    violation ∈ fieldViolations path message ↔
      ∃ place : SpanPlace, place.rank < 9 ∧
        place.Wrong path message violation := by
  obtain ⟨placed, areAll, -, isPlaced⟩ := reportsOnce_fields path message
  rw [← areAll, List.mem_map]
  constructor
  · rintro ⟨⟨place, _⟩, member, rfl⟩
    exact ⟨place, (isPlaced place _).mp member⟩
  · rintro ⟨place, isWrong⟩
    exact ⟨(place, violation), (isPlaced place violation).mpr isWrong, rfl⟩

theorem mem_fieldViolations_of_lacks
    (lacks : SpanLacks path message violation) :
    violation ∈ fieldViolations path message := by
  rw [mem_fieldViolations_iff]
  cases lacks with
  | traceId lacks =>
      exact ⟨.traceId, by decide, properId?_eq_none_iff.mp lacks, rfl⟩
  | spanId lacks =>
      exact ⟨.spanId, by decide, properId?_eq_none_iff.mp lacks, rfl⟩
  | name lacks =>
      exact ⟨.name, by decide, properText?_eq_none_iff.mp lacks, rfl⟩
  | startTime lacks => exact ⟨.startTime, by decide, lacks, rfl⟩
  | endTime lacks => exact ⟨.endTime, by decide, lacks, rfl⟩
  | eventName isEvent lacks =>
      exact
        ⟨.event _ .name, by simp [SpanPlace.rank], _, isEvent,
          properText?_eq_none_iff.mp lacks, rfl⟩
  | linkTraceId isLink lacks =>
      exact
        ⟨.link _ .traceId, by simp [SpanPlace.rank], _, isLink,
          properId?_eq_none_iff.mp lacks, rfl⟩
  | linkSpanId isLink lacks =>
      exact
        ⟨.link _ .spanId, by simp [SpanPlace.rank], _, isLink,
          properId?_eq_none_iff.mp lacks, rfl⟩

theorem not_wrongAttribute_incomplete {map : KeyMap Json} {key : String} :
    ¬WrongAttribute path map key (.malformedTrace .incomplete) := by
  rintro ⟨_, _, -, -, same⟩
  cases same

/-- Nothing that is wrong at a place of a span is that it is incomplete. -/
theorem not_wrong_incomplete :
    ∀ place : SpanPlace,
      ¬place.Wrong path message (.malformedTrace .incomplete)
  | .traceId, isWrong => by cases isWrong.2
  | .spanId, isWrong => by cases isWrong.2
  | .name, isWrong => by cases isWrong.2
  | .startTime, isWrong => by cases isWrong.2
  | .endTime, isWrong => by cases isWrong.2
  | .attribute _, isWrong => not_wrongAttribute_incomplete isWrong
  | .notFinite _, ⟨_, _, same⟩ => by cases same
  | .event _ .name, ⟨_, _, isWrong⟩ => by cases isWrong.2
  | .event _ (.attribute _), ⟨_, _, isWrong⟩ =>
      not_wrongAttribute_incomplete isWrong
  | .link _ .traceId, ⟨_, _, isWrong⟩ => by cases isWrong.2
  | .link _ .spanId, ⟨_, _, isWrong⟩ => by cases isWrong.2
  | .link _ (.attribute _), ⟨_, _, isWrong⟩ =>
      not_wrongAttribute_incomplete isWrong
  | .timing, ⟨_, _, _, _, _, same⟩ => by cases same

theorem incomplete_not_mem_fieldViolations :
    Violation.malformedTrace .incomplete ∉ fieldViolations path message := by
  intro member
  obtain ⟨place, -, isWrong⟩ := mem_fieldViolations_iff.mp member
  exact not_wrong_incomplete place isWrong

theorem incomplete_not_mem_spanViolations {span : Span} :
    Violation.malformedTrace .incomplete ∉ spanViolations span := by
  unfold spanViolations
  repeat' rw [List.mem_append]
  split_ifs <;> simp

/-- A span is refused with the violations of its fields and of its times. There
are some, since there is one for each part that is lacking. -/
theorem accounts_checkSpan (path : String) (message : Wire.Span) :
    Accounts (SpanLacks path message) (checkSpan path message) := by
  have told := @mem_fieldViolations_of_lacks path message
  have known := @incomplete_not_mem_fieldViolations path message
  unfold checkSpan
  cases isSpan : span? message with
  | none =>
      obtain ⟨violation, lacks⟩ := (unbuilt_iff path).mp (Or.inl isSpan)
      exact ⟨List.ne_nil_of_mem (told lacks), known, fun _ => told⟩
  | some span =>
      have knownAll :
          Violation.malformedTrace .incomplete ∉
            fieldViolations path message ++ spanViolations span := by
        rw [List.mem_append]
        exact not_or.mpr ⟨known, incomplete_not_mem_spanViolations⟩
      have toldAll :
          ∀ violation, SpanLacks path message violation →
            violation ∈ fieldViolations path message ++ spanViolations span :=
        fun violation lacks => List.mem_append_left _ (told lacks)
      dsimp only
      cases listed : fieldViolations path message ++ spanViolations span with
      | nil =>
          rw [listed] at toldAll
          intro violation lacks
          cases toldAll violation lacks
      | cons first rest =>
          rw [listed] at knownAll toldAll
          exact ⟨List.cons_ne_nil first rest, knownAll, toldAll⟩

end Span

/-! ## Trees -/

/-- Spans are never refused as a tree that is incomplete without a reason. -/
theorem incomplete_not_mem_treeViolations (mode : Mode) (spans : List Span) :
    Violation.malformedTrace .incomplete ∉ treeViolations mode spans := by
  cases spans with
  | nil => exact List.not_mem_nil
  | cons first rest =>
      have notRoot :
          Violation.malformedTrace .incomplete ∉
            rootViolations (first :: rest) := by
        unfold rootViolations
        split <;> simp
      have notOrphan :
          Violation.malformedTrace .incomplete ∉
            orphanSpans (first :: rest) := by
        intro member
        obtain ⟨span, -, isOrphan⟩ := List.mem_filterMap.mp member
        unfold orphanViolation? at isOrphan
        split at isOrphan
        · cases isOrphan
        · split at isOrphan <;> cases isOrphan
      have notStrict :
          Violation.malformedTrace .incomplete ∉
            if mode = .strict then orphanSpans (first :: rest) else [] := by
        split
        · exact notOrphan
        · exact List.not_mem_nil
      simp [treeViolations, foreignSpans, duplicateSpans, cycles, notRoot,
        notStrict]

end TraceArchive.Check
