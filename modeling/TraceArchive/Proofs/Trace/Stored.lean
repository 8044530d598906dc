import TraceArchive.Proofs.Attribute.Levels
import TraceArchive.Proofs.Check.Proper
import TraceArchive.Store.Basic

/-!
# Stored traces are read again

The stored form of a trace is read as the trace itself, to the signs of its
zeros, where there is room for the deepest attributes and for its assessments.
Of all that a record holds, only a version beyond 64 bits and an assessment
without room stop it from being read. The main statements are
`StoredTrace.read_toStored` and `StoredTrace.recoverable_of_read`.
-/

namespace TraceArchive

open Json (Readable ReadableItems ReadableEntries RecordForm)

/-! ## Simple values -/

namespace Json.Reader

variable {Value : Type} {room : Nat}

theorem word_ofWord (room : Nat) (value : UInt64) :
    word room (document (ofWord value)) = .ok value := by
  have read :
      natural UInt64.size room (document (ofWord value)) =
        .ok value.toNat :=
    natural_integer value.toNat_lt room
  simp only [word, read, Except.map, UInt64.ofNat_toNat]

theorem natural_ofNat {number : Nat} (small : number < UInt64.size)
    (room : Nat) :
    natural UInt64.size room (document (ofNat number)) = .ok number := by
  have isWord : number < 18446744073709551616 := small
  rw [ofNat, dif_pos isWord]
  exact natural_integer small room

theorem natural_double (limit room : Nat) (value : Double) :
    natural limit room (document (.number (.double value))) =
      .error .malformed := by
  rw [document, Number.document]
  split
  · rename_i finite
    simp only [natural, wholeNumber, wholeNumber?,
      Number.value?_numeral finite]
  · rfl

/-- A natural number beyond 64 bits is written as a double, which is not read as
a natural number. -/
theorem small_of_natural_ofNat
    {limit room number result : Nat}
    (read : natural limit room (document (ofNat number)) = .ok result) :
    number < 18446744073709551616 := by
  by_contra large
  rw [ofNat, dif_neg large, natural_double] at read
  cases read

/-- A value that may be absent. -/
theorem optional_orNull
    {reader : Reader Value} {form : Value → Json}
    (inverts : reader.Inverts room form) (value : Option Value) :
    optional reader room (orNull form value).document = .ok value := by
  cases value with
  | none => rfl
  | some held =>
      exact optional_of_some (inverts.notNull held) (inverts.reads held)

theorem optional_ofText? (room : Nat) (value : Option String) :
    optional text room (ofText? value).document = .ok value := by
  cases value <;> rfl

theorem keyMap_toJsonTexts (room : Nat) (map : KeyMap String) :
    keyMap text (room + 1) map.toJsonTexts.document = .ok map :=
  keyMap_document fun _ _ => rfl

end Json.Reader

/-! ## Attributes -/

namespace AttributeValue

mutual

theorem ofStored_toStored :
    ∀ value : AttributeValue, ofStored value.toStored = value
  | .null => rfl
  | .boolean _ => rfl
  | .number _ => rfl
  | .string _ => rfl
  | .list items => by
      rw [toStored, ofStored, ofStoredItems_storedItems items]
  | .map entries => by
      rw [toStored, ofStored, ofStoredEntries_storedEntries entries]

theorem ofStoredItems_storedItems :
    ∀ items : List AttributeValue, ofStoredItems (storedItems items) = items
  | [] => rfl
  | item :: rest => by
      rw [storedItems, ofStoredItems, ofStored_toStored item,
        ofStoredItems_storedItems rest]

theorem ofStoredEntries_storedEntries :
    ∀ entries : List (String × AttributeValue),
      ofStoredEntries (storedEntries entries) = entries
  | [] => rfl
  | (_, value) :: rest => by
      rw [storedEntries, ofStoredEntries, ofStored_toStored value,
        ofStoredEntries_storedEntries rest]

end

theorem storedEntries_eq_map (entries : List (String × AttributeValue)) :
    storedEntries entries =
      entries.map fun entry => (entry.1, entry.2.toStored) := by
  induction entries with
  | nil => rfl
  | cons entry rest inductionHypothesis =>
      rw [storedEntries, inductionHypothesis, List.map_cons]

mutual

theorem readable_toStored :
    ∀ (value : AttributeValue) {room : Nat}, value.depth ≤ room →
      value.onlyFinite = true → value.Ordered → Readable room value.toStored
  | .null, _, _, _, _ => trivial
  | .boolean _, _, _, _, _ => trivial
  | .number _, _, _, finite, _ => finite
  | .string _, _, _, _, _ => trivial
  | .list items, room, fits, finite, ordered => by
      rw [depth] at fits
      refine ⟨by omega, ?_⟩
      exact readableItems_storedItems items (by omega) finite ordered
  | .map entries, room, fits, finite, ordered => by
      rw [depth] at fits
      have ascending : Entries.Ascending (storedEntries entries) := by
        rw [storedEntries_eq_map]
        exact Entries.ascending_mapValues toStored ordered.1
      refine ⟨by omega, ascending, ?_⟩
      exact readableEntries_storedEntries entries (by omega) finite ordered.2

theorem readableItems_storedItems :
    ∀ (items : List AttributeValue) {room : Nat},
      depthOfItems items ≤ room → onlyFiniteItems items = true →
        OrderedItems items → ReadableItems room (storedItems items)
  | [], _, _, _, _ => trivial
  | item :: rest, _, fits, finite, ordered => by
      rw [depthOfItems, Nat.max_le] at fits
      rw [onlyFiniteItems, Bool.and_eq_true] at finite
      exact
        ⟨readable_toStored item fits.1 finite.1 ordered.1,
          readableItems_storedItems rest fits.2 finite.2 ordered.2⟩

theorem readableEntries_storedEntries :
    ∀ (entries : List (String × AttributeValue)) {room : Nat},
      depthOfEntries entries ≤ room → onlyFiniteEntries entries = true →
        OrderedEntries entries → ReadableEntries room (storedEntries entries)
  | [], _, _, _, _ => trivial
  | (_, value) :: rest, _, fits, finite, ordered => by
      rw [depthOfEntries, Nat.max_le] at fits
      rw [onlyFiniteEntries, Bool.and_eq_true] at finite
      exact
        ⟨readable_toStored value fits.1 finite.1 ordered.1,
          readableEntries_storedEntries rest fits.2 finite.2 ordered.2⟩

end

theorem storedReader_toStored
    {value : AttributeValue} {room : Nat}
    (readable : Readable room value.toStored) :
    storedReader room value.toStored.document = .ok value := by
  simp only [storedReader, readable.json_document, ofStored_toStored]

end AttributeValue

/-- Attributes that have a wire form and ordered keys are read wherever there is
room for the deepest of them. -/
theorem Attributes.storedReader_toStored
    {attributes : Attributes} {room : Nat} (fit : attributes.Fit)
    (ordered : attributes.Ordered)
    (enough : deepestLevel ≤ room) :
    storedReader (room + 1) attributes.toStored.document = .ok attributes := by
  rw [toStored, AttributeValue.storedEntries_eq_map]
  refine Json.Reader.keyMap_document fun entry member => ?_
  have ⟨fits, finite⟩ := fit entry member
  apply AttributeValue.storedReader_toStored
  exact AttributeValue.readable_toStored entry.2 (fits.trans enough) finite
    (ordered entry member)

/-! ## Spans -/

theorem SpanStatus.inverts_toStored (room : Nat) :
    Json.Reader.Inverts storedForm.read (room + 1) toStored where
  notNull _ := nofun
  reads status := by
    refine RecordForm.read_of_fills (by decide) ?_
    refine .value (Vocabulary.reader_toJson _ _) ?_
    refine .value rfl ?_
    exact .done _

section Spans

variable {room : Nat}

theorem SpanEvent.read_toStored
    {event : SpanEvent} (fit : event.attributes.Fit)
    (ordered : event.attributes.Ordered)
    (enough : deepestLevel ≤ room) :
    storedForm.read (room + 2) event.toStored.document = .ok event := by
  refine RecordForm.read_of_fills (by decide) ?_
  refine .value (Json.Reader.word_ofWord _ _) ?_
  refine .value rfl ?_
  refine .value
    (Attributes.storedReader_toStored fit ordered enough) ?_
  refine .value (Json.Reader.halfWord_ofHalfWord _ _) ?_
  exact .done _

theorem SpanLink.read_toStored
    {link : SpanLink} (fit : link.attributes.Fit)
    (ordered : link.attributes.Ordered)
    (enough : deepestLevel ≤ room) :
    storedForm.read (room + 2) link.toStored.document = .ok link := by
  refine RecordForm.read_of_fills (by decide) ?_
  refine .value (Identifier.reader_toJson _ _) ?_
  refine .value (Identifier.reader_toJson _ _) ?_
  refine .value (Json.Reader.optional_ofText? _ _) ?_
  refine .value
    (Attributes.storedReader_toStored fit ordered enough) ?_
  refine .value (Json.Reader.halfWord_ofHalfWord _ _) ?_
  refine .value (Json.Reader.halfWord_ofHalfWord _ _) ?_
  exact .done _

namespace Span

variable {span : Span}

theorem read_toStored
    (fit : ∀ attributes ∈ span.attributeMaps, attributes.Fit)
    (ordered : ∀ attributes ∈ span.attributeMaps, attributes.Ordered)
    (enough : deepestLevel ≤ room) :
    storedForm.read (room + 4) span.toStored.document = .ok span := by
  have ofSpan :
      Attributes.storedReader (room + 3) span.attributes.toStored.document =
        .ok span.attributes :=
    Attributes.storedReader_toStored (fit _ List.mem_cons_self)
      (ordered _ List.mem_cons_self) (by omega)
  have ofEvents :
      Json.Reader.list SpanEvent.storedForm.read (room + 3)
          (Json.document (.list (span.events.map SpanEvent.toStored))) =
        .ok span.events :=
    Json.Reader.list_document fun event member =>
      SpanEvent.read_toStored (fit _ (attributes_mem_of_event member))
        (ordered _ (attributes_mem_of_event member)) enough
  have ofLinks :
      Json.Reader.list SpanLink.storedForm.read (room + 3)
          (Json.document (.list (span.links.map SpanLink.toStored))) =
        .ok span.links :=
    Json.Reader.list_document fun link member =>
      SpanLink.read_toStored (fit _ (attributes_mem_of_link member))
        (ordered _ (attributes_mem_of_link member)) enough
  refine RecordForm.read_of_fills (by decide) ?_
  refine .value (Identifier.reader_toJson _ _) ?_
  refine .value (Identifier.reader_toJson _ _) ?_
  refine .value (Json.Reader.optional_ofText? _ _) ?_
  refine .value
    (Json.Reader.optional_orNull (Wire.identifier_inverts _) _) ?_
  refine .value rfl ?_
  refine .value (Vocabulary.reader_toJson _ _) ?_
  refine .value (Json.Reader.word_ofWord _ _) ?_
  refine .value (Json.Reader.word_ofWord _ _) ?_
  refine .value ofSpan ?_
  refine .value (Json.Reader.halfWord_ofHalfWord _ _) ?_
  refine .value ofEvents ?_
  refine .value (Json.Reader.halfWord_ofHalfWord _ _) ?_
  refine .value ofLinks ?_
  refine .value (Json.Reader.halfWord_ofHalfWord _ _) ?_
  refine .value
    (Json.Reader.optional_orNull (SpanStatus.inverts_toStored _) _) ?_
  refine .value (Json.Reader.halfWord_ofHalfWord _ _) ?_
  exact .done _

end Span

theorem Trace.readSpans_toStored
    {spans : List Span} (sound : ∀ span ∈ spans, span.Sound)
    (proper : ∀ span ∈ spans, span.Proper)
    (enough : deepestLevel ≤ room) :
    spansStoredForm.read (room + 6) (spansToStored spans).document =
      .ok spans := by
  have ofSpans :
      Json.Reader.list Span.storedForm.read (room + 5)
          (Json.document (.list (spans.map Span.toStored))) = .ok spans :=
    Json.Reader.list_document fun span member =>
      Span.read_toStored (sound span member).fit (proper span member).ordered
        enough
  refine RecordForm.read_of_fills (by decide) ?_
  refine .value ofSpans ?_
  exact .done _

end Spans

/-! ## Information about a trace -/

theorem TraceLocation.storedReader_toStored
    (room : Nat) (location : TraceLocation) :
    storedReader (room + 1) location.toStored.document = .ok location := by
  cases location <;> rfl

theorem Duration.inverts_toStored (room : Nat) :
    Json.Reader.Inverts storedReader (room + 1) toStored where
  notNull _ := nofun
  reads duration := by
    have small : duration.nanos < 1000000000 := duration.nanos_lt
    have ofNanos :
        Json.Reader.natural UInt32.size room
            (Json.document (.ofNat duration.nanos)) = .ok duration.nanos := by
      rw [Json.ofNat, dif_pos (by omega)]
      exact Json.Reader.natural_integer (Nat.lt_trans small (by decide)) room
    have ofSeconds :
        Json.Reader.natural UInt64.size room
            (Json.document (.ofWord duration.seconds)) =
          .ok duration.seconds.toNat :=
      Json.Reader.natural_integer duration.seconds.toNat_lt room
    have read :
        storedForm.read (room + 1) duration.toStored.document =
          .ok ⟨duration.seconds.toNat, duration.nanos⟩ := by
      refine RecordForm.read_of_fills (by decide) ?_
      refine .value ofSeconds ?_
      refine .value ofNanos ?_
      exact .done _
    simp only [storedReader, read, ofParts?_self]

namespace TraceInfo

variable {room : Nat} {info : TraceInfo}

theorem read_toStored
    (readable :
      ∀ assessment ∈ info.assessments, Readable room (.object assessment))
    (enough : 0 < room) :
    storedForm.read (room + 2) info.toStored.document = .ok info := by
  obtain ⟨less, rfl⟩ := Nat.exists_eq_succ_of_ne_zero (Nat.ne_of_gt enough)
  have ofAssessments :
      Json.Reader.list Json.Reader.jsonObject (less + 2)
          (Json.document (.list (info.assessments.map .object))) =
        .ok info.assessments :=
    Json.Reader.list_document fun assessment member =>
      Json.jsonObject_document (readable assessment member)
  refine RecordForm.read_of_fills (by decide) ?_
  refine .value rfl ?_
  refine .value (Json.Reader.optional_ofText? _ _) ?_
  refine .value
    (TraceLocation.storedReader_toStored _ _) ?_
  refine .value (Json.Reader.optional_ofText? _ _) ?_
  refine .value (Json.Reader.optional_ofText? _ _) ?_
  refine .value (Instant.reader_toText _ _) ?_
  refine .value
    (Json.Reader.optional_orNull (Duration.inverts_toStored _) _) ?_
  refine .value (Vocabulary.reader_toJson _ _) ?_
  refine .value (Json.Reader.keyMap_toJsonTexts _ _) ?_
  refine .value ofAssessments ?_
  refine .value (Json.Reader.keyMap_toJsonTexts _ _) ?_
  exact .done _

/-- Where stored information is read there is room for its assessments. -/
theorem readable_of_read
    {more : Nat} {result : TraceInfo}
    (readable :
      ∀ assessment ∈ info.assessments, Readable more (.object assessment))
    (read : storedForm.read (room + 2) info.toStored.document = .ok result) :
    ∀ assessment ∈ info.assessments, Readable room (.object assessment) := by
  have inInfo :
      ("assessments", Json.list (info.assessments.map .object)) ∈
        [("trace_id", Json.string info.traceId),
          ("client_request_id", .ofText? info.clientRequestId),
          ("trace_location", info.location.toStored),
          ("request", .ofText? info.request),
          ("response", .ofText? info.response),
          ("request_time", .string info.requestTime.toText),
          ("execution_duration",
            .orNull Duration.toStored info.executionDuration),
          ("state", Vocabulary.toJson info.state),
          ("trace_metadata", info.metadata.toJsonTexts),
          ("assessments", .list (info.assessments.map .object)),
          ("tags", info.tags.toJsonTexts)] := by
    simp only [List.mem_cons, true_or, or_true]
  obtain ⟨values, readList⟩ := RecordForm.read_of_mem_read read inInfo rfl
  intro assessment member
  obtain ⟨value, readValue⟩ :=
    Json.Reader.read_of_items_document readList assessment member
  exact Json.readable_of_jsonObject_document (readable assessment member)
    readValue

end TraceInfo

/-! ## Records -/

theorem Trace.read_toStored
    {room : Nat} {trace : Trace} (sound : ∀ span ∈ trace.spans, span.Sound)
    (proper : ∀ span ∈ trace.spans, span.Proper)
    (readable :
      ∀ assessment ∈ trace.info.assessments,
        Readable (room + 4) (.object assessment))
    (enough : deepestLevel ≤ room) :
    storedForm.read (room + 7) trace.toStored.document = .ok trace := by
  have ofInfo :=
    TraceInfo.read_toStored readable (Nat.succ_pos (room + 3))
  have ofSpans := readSpans_toStored sound proper enough
  refine RecordForm.read_of_fills (by decide) ?_
  refine .value ofInfo ?_
  refine .value ofSpans ?_
  exact .done _

theorem Trace.readable_of_read
    {room more : Nat} {trace result : Trace}
    (readable :
      ∀ assessment ∈ trace.info.assessments,
        Readable more (.object assessment))
    (read : storedForm.read (room + 7) trace.toStored.document = .ok result) :
    ∀ assessment ∈ trace.info.assessments,
      Readable (room + 4) (.object assessment) := by
  obtain ⟨info, readInfo⟩ :=
    RecordForm.read_of_mem_read read List.mem_cons_self rfl
  exact TraceInfo.readable_of_read readable readInfo

namespace StoredTrace

/-- Whether a record can be read from a place where there is some room for its
assessments: its version has 64 bits, and none of these is deeper. -/
structure Recoverable (room : Nat) (record : StoredTrace) : Prop where
  version : record.version < UInt64.size
  assessments :
    ∀ assessment ∈ record.trace.info.assessments,
      Readable room (.object assessment)

instance (room : Nat) (record : StoredTrace) :
    Decidable (record.Recoverable room) :=
  decidable_of_iff
    (record.version < UInt64.size ∧
      ∀ assessment ∈ record.trace.info.assessments,
        Readable room (.object assessment))
    ⟨fun ⟨version, assessments⟩ => ⟨version, assessments⟩,
      fun recoverable => ⟨recoverable.version, recoverable.assessments⟩⟩

variable {room : Nat} {record : StoredTrace}

theorem read_toStored
    (sound : ∀ span ∈ record.trace.spans, span.Sound)
    (proper : ∀ span ∈ record.trace.spans, span.Proper)
    (recoverable : record.Recoverable (room + 4))
    (enough : deepestLevel ≤ room) :
    storedForm.read (room + 8) record.toStored.document = .ok record := by
  have ofTrace :=
    Trace.read_toStored sound proper recoverable.assessments enough
  have ofVersion :=
    Json.Reader.natural_ofNat recoverable.version (room + 7)
  refine RecordForm.read_of_fills (by decide) ?_
  refine .value ofTrace ?_
  refine .value ofVersion ?_
  exact .done _

theorem recoverable_of_read
    {more : Nat} {result : StoredTrace}
    (readable :
      ∀ assessment ∈ record.trace.info.assessments,
        Readable more (.object assessment))
    (read : storedForm.read (room + 8) record.toStored.document = .ok result) :
    record.Recoverable (room + 4) := by
  obtain ⟨version, readVersion⟩ :=
    RecordForm.read_of_mem_read read
      (List.mem_cons_of_mem _ List.mem_cons_self) rfl
  obtain ⟨trace, readTrace⟩ :=
    RecordForm.read_of_mem_read read List.mem_cons_self rfl
  exact
    ⟨Json.Reader.small_of_natural_ofNat readVersion,
      Trace.readable_of_read readable readTrace⟩

end StoredTrace

end TraceArchive
