import TraceArchive.Proofs.Identifier
import TraceArchive.Proofs.Json.Record
import TraceArchive.Proofs.Time.Timestamp
import TraceArchive.Proofs.Vocabulary
import TraceArchive.Wire.Format

/-!
# Messages that were written as JSON are read again
-/

namespace TraceArchive

namespace Json

/-- Whether a reader takes back every value from its form, which is not
`null`. -/
structure Reader.Inverts {Value : Type} (reader : Reader Value) (room : Nat)
    (toJson : Value → Json) : Prop where
  notNull : ∀ value, (toJson value).document ≠ .null
  reads : ∀ value, reader room (toJson value).document = .ok value

end Json

/-! ## Fields that may be left out -/

namespace Json.RecordForm

variable {Record Value : Type} {form : RecordForm Record} {room : Nat}
  {names : List String} {name : String} {record result : Record}
  {rest : List (String × Json)}

/-- A field that is written if it has a value. -/
theorem Reads.field?
    {reader : Reader Value} {set : Record → Option Value → Record}
    {toJson : Value → Json} {value : Option Value} {otherName : Option String}
    (isField :
      form.fields.find? (fun other => other.answersTo name) =
        some { Wire.absentable name reader set with otherName })
    (isNew : name ∉ names) (keeps : set record none = record)
    (notNull : ∀ held, (toJson held).document ≠ .null)
    (reads :
      ∀ held, value = some held →
        reader room (toJson held).document = .ok held)
    (readRest : form.Reads room names (set record value) rest result) :
    form.Reads room (name :: names) record
      (Wire.field? name toJson value ++ rest) result := by
  cases value with
  | none =>
      rw [keeps] at readRest
      exact readRest.skip
  | some held =>
      have read :=
        Reader.optional_of_some (notNull held) (reads held rfl)
      refine Reads.take isField rfl isNew ?_ readRest
      simp only [Wire.absentable, RecordField.possible, RecordField.of, read]

/-- A field whose value is read whatever it is. -/
theorem Reads.simple?
    {reader : Reader Value} {set : Record → Option Value → Record}
    {toJson : Value → Json} {value : Option Value}
    (isField :
      form.fields.find? (fun other => other.answersTo name) =
        some (Wire.absentable name reader set))
    (isNew : name ∉ names) (keeps : set record none = record)
    (inverts : reader.Inverts room toJson)
    (readRest : form.Reads room names (set record value) rest result) :
    form.Reads room (name :: names) record
      (Wire.field? name toJson value ++ rest) result :=
  .field? isField isNew keeps inverts.notNull
    (fun held _ => inverts.reads held) readRest

/-- A field that is written if its map is not empty. -/
theorem Reads.mapField?
    {set : Record → KeyMap Json → Record} {map : KeyMap Json}
    (isField :
      form.fields.find? (fun other => other.answersTo name) =
        some (.possible name Wire.attributesReader set))
    (isNew : name ∉ names) (keeps : set record .empty = record)
    (enough : 0 < room)
    (reads : ∀ entry ∈ map.entries, Readable (room - 1) entry.2)
    (readRest : form.Reads room names (set record map) rest result) :
    form.Reads room (name :: names) record
      (Wire.mapField? name map ++ rest) result := by
  unfold Wire.mapField?
  split
  · rename_i isEmpty
    have nothing : map = .empty :=
      KeyMap.ext (List.isEmpty_iff.mp isEmpty)
    rw [nothing, keeps] at readRest
    exact readRest.skip
  · have sameMap : (map.mapValues id).entries = map.entries := by
      simp [KeyMap.mapValues]
    have read :
        Wire.attributesReader room (document (.object map.entries)) =
          .ok map := by
      obtain ⟨less, rfl⟩ := Nat.exists_eq_succ_of_ne_zero (by omega : room ≠ 0)
      rw [← sameMap]
      refine Reader.keyMap_document fun entry member => ?_
      exact Readable.json_document entry.2 (reads entry member)
    refine Reads.take isField rfl isNew ?_ readRest
    simp only [RecordField.possible, RecordField.of, read]

/-- A field that is written if its list is not empty. -/
theorem Reads.listField?
    {reader : Reader Value} {set : Record → List Value → Record}
    {toJson : Value → Json} {values : List Value}
    (isField :
      form.fields.find? (fun other => other.answersTo name) =
        some (.possible name (Reader.list reader) set))
    (isNew : name ∉ names) (keeps : set record [] = record)
    (enough : 0 < room)
    (reads :
      ∀ value ∈ values, reader (room - 1) (toJson value).document = .ok value)
    (readRest : form.Reads room names (set record values) rest result) :
    form.Reads room (name :: names) record
      (Wire.listField? name toJson values ++ rest) result := by
  unfold Wire.listField?
  split
  · rename_i isEmpty
    rw [List.isEmpty_iff.mp isEmpty, keeps] at readRest
    exact readRest.skip
  · have read :
        Reader.list reader room (document (.list (values.map toJson))) =
          .ok values := by
      obtain ⟨less, rfl⟩ := Nat.exists_eq_succ_of_ne_zero (by omega : room ≠ 0)
      exact Reader.list_document reads
    refine Reads.take isField rfl isNew ?_ readRest
    simp only [RecordField.possible, RecordField.of, read]

end Json.RecordForm

/-! ## Simple values -/

theorem Identifier.reader_toJson (room : Nat) (identifier : Identifier) :
    reader room identifier.toJson.document = .ok identifier := by
  simp only [toJson, Json.document, reader, Json.Reader.text, ofHex_toHex]

namespace Json.Reader

theorem wholeNumber_integer
    {admitted : Int → Bool} {value : Int}
    {inRange :
      -9223372036854775808 ≤ value ∧ value < 18446744073709551616}
    (isAdmitted : admitted value = true) (room : Nat) :
    wholeNumber admitted room
        (document (.number (.integer value inRange))) = .ok value := by
  have finite : (Number.integer value inRange).isFinite = true := rfl
  have isValue := Number.value?_numeral finite
  simp only [document, Number.document, if_pos finite, wholeNumber,
    wholeNumber?, isValue, if_pos isAdmitted]

theorem natural_integer
    {limit value : Nat}
    {inRange :
      -9223372036854775808 ≤ (value : Int) ∧
        (value : Int) < 18446744073709551616}
    (small : value < limit) (room : Nat) :
    natural limit room (document (.number (.integer value inRange))) =
      .ok value := by
  have read :
      wholeNumber (fun value => 0 ≤ value ∧ value < limit) room
          (document (.number (.integer value inRange))) = .ok (value : Int) :=
    wholeNumber_integer (decide_eq_true (by omega)) room
  simp only [natural, read, Int.toNat_natCast]

theorem halfWord_ofHalfWord (room : Nat) (value : UInt32) :
    halfWord room (document (ofHalfWord value)) = .ok value := by
  have read :
      natural UInt32.size room (document (ofHalfWord value)) =
        .ok value.toNat :=
    natural_integer value.toNat_lt room
  simp only [halfWord, read, Except.map, UInt32.ofNat_toNat]

end Json.Reader

namespace Wire

open Json (Readable)

theorem timeReader_timeToJson (room : Nat) (time : UInt64) :
    timeReader room (timeToJson time).document = .ok time := by
  have digits : (toString time.toNat).toList = Nat.toDigits 10 time.toNat := by
    simp [toString, Nat.repr]
  have plain :
      Text.trim (Nat.toDigits 10 time.toNat) = Nat.toDigits 10 time.toNat :=
    Text.trim_of_no_blank fun _ member =>
      Text.isBlank_of_isDigit (Text.isDigit_of_mem_toDigits member)
  simp only [timeToJson, Json.document, timeReader, digits, plain,
    Text.readInteger_toDigits time.toNat_lt, UInt64.ofNat_toNat]

section Inverts

variable (room : Nat)

theorem text_inverts : Json.Reader.text.Inverts room Json.string :=
  ⟨fun _ => nofun, fun _ => rfl⟩

theorem identifier_inverts :
    Identifier.reader.Inverts room Identifier.toJson :=
  ⟨fun _ => nofun, Identifier.reader_toJson room⟩

theorem word_inverts
    {Word : Type} [Vocabulary Word] [Vocabulary.Lawful Word] :
    Json.Reader.Inverts (@Vocabulary.reader Word _) room Vocabulary.toJson :=
  ⟨fun _ => nofun, Vocabulary.reader_toJson room⟩

theorem halfWord_inverts :
    Json.Reader.halfWord.Inverts room Json.ofHalfWord :=
  ⟨fun _ => nofun, Json.Reader.halfWord_ofHalfWord room⟩

theorem time_inverts : timeReader.Inverts room timeToJson :=
  ⟨fun _ => nofun, timeReader_timeToJson room⟩

theorem instant_inverts :
    Instant.reader.Inverts room (fun instant => .string instant.toText) :=
  ⟨fun _ => nofun, Instant.reader_toText room⟩

theorem duration_inverts :
    Duration.reader.Inverts room (fun duration => .string duration.toText) :=
  ⟨fun _ => nofun, Duration.reader_toText room⟩

end Inverts

/-! ## Parts of spans -/

theorem Status.read_toJson (room : Nat) (status : Status) :
    Status.form.read (room + 1) status.toJson.document = .ok status := by
  have reads :
      Status.form.Reads room ["message", "code"] {}
        (field? "message" .string status.message ++
          (field? "code" Vocabulary.toJson status.code ++ [])) status := by
    refine .simple? rfl (by decide) rfl (text_inverts _) ?_
    refine .simple? rfl (by decide) rfl (word_inverts _) ?_
    exact .done rfl
  rw [List.append_nil] at reads
  exact Json.RecordForm.read_of_reads reads

theorem status_inverts (room : Nat) :
    Json.Reader.Inverts Status.form.read (room + 1) Status.toJson :=
  ⟨fun _ => nofun, Status.read_toJson room⟩

theorem Event.read_toJson
    {room : Nat} {event : Event}
    (readable : ∀ entry ∈ event.attributes.entries, Readable room entry.2) :
    Event.form.read (room + 2) event.toJson.document = .ok event := by
  have reads :
      Event.form.Reads (room + 1)
        ["time_unix_nano", "name", "attributes", "dropped_attributes_count"]
        {}
        (field? "time_unix_nano" timeToJson event.time ++
          (field? "name" .string event.name ++
            (mapField? "attributes" event.attributes ++
              (field? "dropped_attributes_count" .ofHalfWord
                  event.droppedAttributes ++ [])))) event := by
    refine .simple? rfl (by decide) rfl (time_inverts _) ?_
    refine .simple? rfl (by decide) rfl (text_inverts _) ?_
    refine .mapField? rfl (by decide) rfl (Nat.succ_pos _) readable ?_
    refine .simple? rfl (by decide) rfl (halfWord_inverts _) ?_
    exact .done rfl
  simp only [List.append_nil, ← List.append_assoc] at reads
  exact Json.RecordForm.read_of_reads reads

theorem Link.read_toJson
    {room : Nat} {link : Link}
    (readable : ∀ entry ∈ link.attributes.entries, Readable room entry.2) :
    Link.form.read (room + 2) link.toJson.document = .ok link := by
  have reads :
      Link.form.Reads (room + 1)
        ["trace_id", "span_id", "trace_state", "attributes",
          "dropped_attributes_count", "flags"]
        {}
        (field? "trace_id" Identifier.toJson link.traceId ++
          (field? "span_id" Identifier.toJson link.spanId ++
            (field? "trace_state" .string link.traceState ++
              (mapField? "attributes" link.attributes ++
                (field? "dropped_attributes_count" .ofHalfWord
                    link.droppedAttributes ++
                  (field? "flags" .ofHalfWord link.flags ++ []))))))
        link := by
    refine .simple? rfl (by decide) rfl (identifier_inverts _) ?_
    refine .simple? rfl (by decide) rfl (identifier_inverts _) ?_
    refine .simple? rfl (by decide) rfl (text_inverts _) ?_
    refine .mapField? rfl (by decide) rfl (Nat.succ_pos _) readable ?_
    refine .simple? rfl (by decide) rfl (halfWord_inverts _) ?_
    refine .simple? rfl (by decide) rfl (halfWord_inverts _) ?_
    exact .done rfl
  simp only [List.append_nil, ← List.append_assoc] at reads
  exact Json.RecordForm.read_of_reads reads

/-! ## Spans -/

namespace Span

/-- The attributes of a span, of its events and of its links. -/
def attributeMaps (span : Span) : List (KeyMap Json) :=
  span.attributes ::
    (span.events.map Event.attributes ++ span.links.map Link.attributes)

theorem attributes_mem_of_event
    {span : Span} {event : Event} (member : event ∈ span.events) :
    event.attributes ∈ span.attributeMaps :=
  List.mem_cons_of_mem _
    (List.mem_append_left _ (List.mem_map_of_mem member))

theorem attributes_mem_of_link
    {span : Span} {link : Link} (member : link ∈ span.links) :
    link.attributes ∈ span.attributeMaps :=
  List.mem_cons_of_mem _
    (List.mem_append_right _ (List.mem_map_of_mem member))

/-- Whether nothing was left out of a span and its attributes can be read where
there is some room. -/
structure Legible (room : Nat) (span : Span) : Prop where
  complete : span.notFinite = []
  readable :
    ∀ map ∈ span.attributeMaps, ∀ entry ∈ map.entries,
      Readable room entry.2

variable {room : Nat} {span : Span}

theorem read_toJson (legible : span.Legible room) :
    Span.form.read (room + 4) span.toJson.document = .ok span := by
  have ofSpan : ∀ entry ∈ span.attributes.entries,
      Readable (room + 2) entry.2 := fun entry member =>
    Json.Readable.mono entry.2 (by omega)
      (legible.readable _ List.mem_cons_self entry member)
  have ofEvent : ∀ event ∈ span.events,
      Event.form.read (room + 2) event.toJson.document = .ok event :=
    fun event member =>
      Event.read_toJson
        (legible.readable _ (attributes_mem_of_event member))
  have ofLink : ∀ link ∈ span.links,
      Link.form.read (room + 2) link.toJson.document = .ok link :=
    fun link member =>
      Link.read_toJson (legible.readable _ (attributes_mem_of_link member))
  have reads :
      Span.form.Reads (room + 3)
        ["trace_id", "span_id", "trace_state", "parent_span_id", "flags",
          "name", "kind", "start_time_unix_nano", "end_time_unix_nano",
          "attributes", "dropped_attributes_count", "events",
          "dropped_events_count", "links", "dropped_links_count", "status"]
        {}
        (field? "trace_id" Identifier.toJson span.traceId ++
          (field? "span_id" Identifier.toJson span.spanId ++
          (field? "trace_state" .string span.traceState ++
          (field? "parent_span_id" Identifier.toJson span.parentId ++
          (field? "flags" .ofHalfWord span.flags ++
          (field? "name" .string span.name ++
          (field? "kind" Vocabulary.toJson span.kind ++
          (field? "start_time_unix_nano" timeToJson span.startTime ++
          (field? "end_time_unix_nano" timeToJson span.endTime ++
          (mapField? "attributes" span.attributes ++
          (field? "dropped_attributes_count" .ofHalfWord
              span.droppedAttributes ++
          (listField? "events" Event.toJson span.events ++
          (field? "dropped_events_count" .ofHalfWord span.droppedEvents ++
          (listField? "links" Link.toJson span.links ++
          (field? "dropped_links_count" .ofHalfWord span.droppedLinks ++
          (field? "status" Status.toJson span.status ++ []))))))))))))))))
        { span with notFinite := [] } := by
    refine .simple? rfl (by decide) rfl (identifier_inverts _) ?_
    refine .simple? rfl (by decide) rfl (identifier_inverts _) ?_
    refine .simple? rfl (by decide) rfl (text_inverts _) ?_
    refine .simple? rfl (by decide) rfl (identifier_inverts _) ?_
    refine .simple? rfl (by decide) rfl (halfWord_inverts _) ?_
    refine .simple? rfl (by decide) rfl (text_inverts _) ?_
    refine .simple? rfl (by decide) rfl (word_inverts _) ?_
    refine .simple? rfl (by decide) rfl (time_inverts _) ?_
    refine .simple? rfl (by decide) rfl (time_inverts _) ?_
    refine .mapField? rfl (by decide) rfl (Nat.succ_pos _) ofSpan ?_
    refine .simple? rfl (by decide) rfl (halfWord_inverts _) ?_
    refine .listField? rfl (by decide) rfl (Nat.succ_pos _) ofEvent ?_
    refine .simple? rfl (by decide) rfl (halfWord_inverts _) ?_
    refine .listField? rfl (by decide) rfl (Nat.succ_pos _) ofLink ?_
    refine .simple? rfl (by decide) rfl (halfWord_inverts _) ?_
    refine .simple? rfl (by decide) rfl (status_inverts _) ?_
    exact .done rfl
  have same : { span with notFinite := [] } = span := by
    rw [← legible.complete]
  rw [same] at reads
  simp only [List.append_nil, ← List.append_assoc] at reads
  exact Json.RecordForm.read_of_reads reads

theorem read_listToJson
    {spans : List Span} (legible : ∀ span ∈ spans, span.Legible room) :
    Span.listForm.read (room + 6) (listToJson spans).document = .ok spans := by
  have read :
      Json.Reader.list Span.form.read (room + 5)
          (Json.document (.list (spans.map toJson))) = .ok spans :=
    Json.Reader.list_document fun span member =>
      read_toJson (legible span member)
  have reads :
      Span.listForm.Reads (room + 5) ["spans"] []
        [("spans", .list (spans.map toJson))] spans := by
    apply Json.RecordForm.Reads.take
    · exact rfl
    · exact rfl
    · exact List.not_mem_nil
    · simp only [Json.RecordField.possible, Json.RecordField.of, read]
      rfl
    · exact .done rfl
  exact Json.RecordForm.read_of_reads reads

end Span

/-! ## Information about a trace -/

namespace Location

theorem experiment_inverts (room : Nat) :
    Json.Reader.Inverts experimentForm.read (room + 1) experimentToJson where
  notNull _ := nofun
  reads identifier := by
    have reads :
        experimentForm.Reads room ["experiment_id"] none
          (field? "experiment_id" .string identifier ++ []) identifier :=
      .simple? rfl (by decide) rfl (text_inverts _) (.done rfl)
    rw [List.append_nil] at reads
    exact Json.RecordForm.read_of_reads reads

theorem table_inverts (room : Nat) :
    Json.Reader.Inverts tableForm.read (room + 1) tableToJson where
  notNull _ := nofun
  reads fullName := by
    have reads :
        tableForm.Reads room ["full_table_name"] none
          (field? "full_table_name" .string fullName ++ []) fullName :=
      .simple? rfl (by decide) rfl (text_inverts _) (.done rfl)
    rw [List.append_nil] at reads
    exact Json.RecordForm.read_of_reads reads

theorem inverts (room : Nat) :
    Json.Reader.Inverts form.read (room + 2) toJson where
  notNull _ := nofun
  reads location := by
    have reads :
        form.Reads (room + 1) ["type", "mlflow_experiment", "inference_table"]
          {}
          (field? "type" Vocabulary.toJson location.kind ++
            (field? "mlflow_experiment" experimentToJson location.experiment ++
              (field? "inference_table" tableToJson location.inferenceTable ++
                []))) location := by
      refine .simple? rfl (by decide) rfl (word_inverts _) ?_
      refine .simple? rfl (by decide) rfl (experiment_inverts _) ?_
      refine .simple? rfl (by decide) rfl (table_inverts _) ?_
      exact .done rfl
    simp only [List.append_nil, ← List.append_assoc] at reads
    exact Json.RecordForm.read_of_reads reads

end Location

namespace TraceInfo

/-- Whether the arbitrary values in the information about a trace can be read
where there is some room. -/
structure Legible (room : Nat) (info : TraceInfo) : Prop where
  metadata : ∀ entry ∈ info.metadata.entries, Readable room entry.2
  assessments : ∀ assessment ∈ info.assessments, Readable room assessment
  tags : ∀ entry ∈ info.tags.entries, Readable room entry.2

variable {room : Nat} {info : TraceInfo}

theorem read_toJson (legible : info.Legible (room + 1)) :
    form.read (room + 3) info.toJson.document = .ok info := by
  have ofAssessments : ∀ assessment ∈ info.assessments,
      Json.Reader.json (room + 1) (id assessment).document = .ok assessment :=
    fun assessment member =>
      Json.Readable.json_document assessment
        (legible.assessments assessment member)
  have reads :
      form.Reads (room + 2)
        ["trace_id", "client_request_id", "trace_location", "request",
          "response", "request_time", "execution_duration", "state",
          "trace_metadata", "assessments", "tags"]
        {}
        (field? "trace_id" .string info.traceId ++
          (field? "client_request_id" .string info.clientRequestId ++
          (field? "trace_location" Location.toJson info.location ++
          (field? "request" .string info.request ++
          (field? "response" .string info.response ++
          (field? "request_time" (fun time => .string time.toText)
              info.requestTime ++
          (field? "execution_duration"
              (fun duration => .string duration.toText)
              info.executionDuration ++
          (field? "state" Vocabulary.toJson info.state ++
          (mapField? "trace_metadata" info.metadata ++
          (listField? "assessments" id info.assessments ++
          (mapField? "tags" info.tags ++ []))))))))))) info := by
    refine .simple? rfl (by decide) rfl (text_inverts _) ?_
    refine .simple? rfl (by decide) rfl (text_inverts _) ?_
    refine .simple? rfl (by decide) rfl (Location.inverts _) ?_
    refine .simple? rfl (by decide) rfl (text_inverts _) ?_
    refine .simple? rfl (by decide) rfl (text_inverts _) ?_
    refine .simple? rfl (by decide) rfl (instant_inverts _) ?_
    refine .simple? rfl (by decide) rfl (duration_inverts _) ?_
    refine .simple? rfl (by decide) rfl (word_inverts _) ?_
    refine .mapField? rfl (by decide) rfl (Nat.succ_pos _) legible.metadata ?_
    refine .listField? rfl (by decide) rfl (Nat.succ_pos _) ofAssessments ?_
    refine .mapField? rfl (by decide) rfl (Nat.succ_pos _) legible.tags ?_
    exact .done rfl
  simp only [List.append_nil, ← List.append_assoc] at reads
  exact Json.RecordForm.read_of_reads reads

end TraceInfo

/-! ## Traces -/

namespace Trace

/-- Whether the arbitrary values of a message can be read as deep inside it as
they are. -/
structure Legible (trace : Trace) : Prop where
  info : ∀ info, trace.info = some info → info.Legible 124
  spans :
    ∀ spans, trace.spans = some spans → ∀ span ∈ spans, span.Legible 120

theorem read_toJson {trace : Trace} (legible : trace.Legible) :
    form.read Json.depthLimit trace.toJson.document = .ok trace := by
  have reads :
      form.Reads 126 ["info", "data"] {}
        (field? "info" TraceInfo.toJson trace.info ++
          (field? "data" Span.listToJson trace.spans ++ [])) trace := by
    refine .field? rfl (by decide) rfl (fun _ => nofun)
      (fun info isInfo => TraceInfo.read_toJson (legible.info info isInfo)) ?_
    refine .field? rfl (by decide) rfl (fun _ => nofun)
      (fun spans isSpans =>
        Span.read_listToJson (legible.spans spans isSpans)) ?_
    exact .done rfl
  simp only [List.append_nil] at reads
  exact Json.RecordForm.read_of_reads reads

end Trace

/-- The body of a message is read as the message. -/
theorem Format.decode_encodeMessage
    {message : Trace} (legible : message.Legible) :
    Format.json.decode (Format.json.encodeMessage message) = .ok message := by
  simp only [decode, encodeMessage, Json.readBytes_characters,
    Trace.read_toJson legible]

end Wire

end TraceArchive
