import TraceArchive.Proofs.Protobuf.Nesting

/-!
# Messages that were written are read again

Every part of a message comes back as it was, whatever it is, if its numbers
have the sizes of the fields and there is room for its values. Only the
assessments of a trace are as deep as a client likes: the information about the
trace is read just where there is room for all of them.
-/

namespace TraceArchive.Protobuf

/-! ## Fields of messages -/

section Fields

variable {Message Content : Type} {schema : Schema}
  {absorb : Message → Field → Option Message} {message : Message}
  {rest : List Field} {number room : Nat} {outcome : Option Message}

/-- A field that is written if it has a content. -/
theorem Reads.field?
    {content : Option Content} {form : Content → Payload}
    (set : Message → Option Content → Message)
    (starts : set message none = message)
    (known : ∀ held, schema.knows ⟨number, form held⟩ = true)
    (absorbs :
      ∀ held, content = some held →
        (form held).encode.length < UInt64.size →
          absorb message ⟨number, form held⟩ = some (set message (some held)))
    (readRest : Reads schema absorb (set message content) rest outcome) :
    Reads schema absorb message
      (Protobuf.field? number form content ++ rest) outcome := by
  cases content with
  | none =>
      rw [starts] at readRest
      exact readRest
  | some held => exact .cons (known held) (absorbs held rfl) readRest

/-- A field whose content is read whatever it is. -/
theorem Reads.simple?
    {content : Option Content} {form : Content → Payload}
    {read : Payload → Option Content}
    (set : Message → Option Content → Message)
    (starts : set message none = message)
    (known : ∀ held, schema.knows ⟨number, form held⟩ = true)
    (absorbs :
      ∀ payload,
        absorb message ⟨number, payload⟩ =
          (read payload).map fun held => set message (some held))
    (inverts : ∀ held, read (form held) = some held)
    (readRest : Reads schema absorb (set message content) rest outcome) :
    Reads schema absorb message
      (Protobuf.field? number form content ++ rest) outcome := by
  refine .field? set starts known (fun held _ _ => ?_) readRest
  rw [absorbs, inverts, Option.map_some]

/-- The entries of a map. -/
theorem Reads.mapFields
    {valueFields : Content → List Field} {map : KeyMap Content}
    {read : KeyMap Content → Payload → Option (KeyMap Content)}
    (set : Message → KeyMap Content → Message)
    (starts : set message .empty = message)
    (known : ∀ bytes, schema.knows ⟨number, .delimited bytes⟩ = true)
    (absorbs :
      ∀ before payload,
        absorb (set message before) ⟨number, payload⟩ =
          (read before payload).map (set message))
    (reads :
      ∀ entry ∈ map.entries, ∀ before,
        (encodeFields
          ((if entry.1.isEmpty then [] else [⟨1, .ofText entry.1⟩]) ++
            valueFields entry.2)).length < UInt64.size →
        read before (.delimited (encodeFields
          ((if entry.1.isEmpty then [] else [⟨1, .ofText entry.1⟩]) ++
            valueFields entry.2))) =
          some (before.insert entry.1 entry.2))
    (readRest : Reads schema absorb (set message map) rest outcome) :
    Reads schema absorb message
      (Protobuf.mapFields number valueFields map ++ rest) outcome := by
  refine .items (fun before => set message (KeyMap.ofList before))
    starts (fun _ => known _) (fun entry member before short => ?_) ?_
  · have read :=
      reads entry member (KeyMap.ofList before)
        (Nat.lt_of_le_of_lt (length_le_delimited _) short)
    rw [absorbs, read, Option.map_some, KeyMap.ofList_concat]
  · rw [KeyMap.ofList_entries]
    exact readRest

/-- Whether there is room for the values of a map, two messages inside of where
the map is, and they can be read again. -/
def FitsMap (room : Nat) (map : KeyMap Value) : Prop :=
  ∀ entry ∈ map.entries, entry.2.Reappears ∧ entry.2.levels + 2 ≤ room

theorem absorbAttribute_entryBytes
    {key : String} {value : Value} (reappears : value.Reappears)
    (enough : value.levels + 2 ≤ room) (before : KeyMap Value)
    (short : (Value.entryBytes (key, value)).length < UInt64.size) :
    absorbAttribute room before (.delimited (Value.entryBytes (key, value))) =
      some (before.insert key value) := by
  obtain ⟨inner, rfl⟩ : ∃ inner, room = inner + 2 :=
    ⟨room - 2, by omega⟩
  have reads :
      value.encode.length < UInt64.size →
        readNested Value.mergeValue (inner + 1) .absent
          (.delimited value.encode) = some value := by
    intro shortValue
    have read := reappears inner shortValue
    rwa [if_pos (by omega)] at read
  have read := Value.readEntry_entryBytes reads (inner + 1) short
  simp only [absorbAttribute, Payload.bytes?, read, Option.map_some]

theorem Reads.attributes
    {map : KeyMap Value} (set : Message → KeyMap Value → Message)
    (starts : set message .empty = message)
    (known : ∀ bytes, schema.knows ⟨number, .delimited bytes⟩ = true)
    (absorbs :
      ∀ before payload,
        absorb (set message before) ⟨number, payload⟩ =
          (absorbAttribute room before payload).map (set message))
    (fits : FitsMap room map)
    (readRest : Reads schema absorb (set message map) rest outcome) :
    Reads schema absorb message (attributeFields number map ++ rest)
      outcome :=
  .mapFields set starts known absorbs
    (fun entry member before short =>
      absorbAttribute_entryBytes (fits entry member).1 (fits entry member).2
        before short) readRest

theorem Reads.texts
    {map : KeyMap String} (set : Message → KeyMap String → Message)
    (starts : set message .empty = message)
    (known : ∀ bytes, schema.knows ⟨number, .delimited bytes⟩ = true)
    (absorbs :
      ∀ before payload,
        absorb (set message before) ⟨number, payload⟩ =
          (absorbText (room + 1) before payload).map (set message))
    (readRest : Reads schema absorb (set message map) rest outcome) :
    Reads schema absorb message (textFields number map ++ rest) outcome := by
  refine .mapFields set starts known absorbs
    (fun (key, text) _ before short => ?_) readRest
  have readsText :
      Reads entrySchema
        (absorbEntry fun _ payload => payload.text?) (key, "")
        (if text.isEmpty then [] else [⟨2, .ofText text⟩])
        ((some text).map fun text => (key, text)) := by
    split
    · rename_i isEmpty
      obtain rfl : text = "" := String.isEmpty_iff.mp isEmpty
      exact .done
    · refine .single rfl fun _ => ?_
      rw [absorbEntry_value, Payload.text?_ofText]
  have read := readEntry_encodeFields readsText room short
  simp only [absorbText, Payload.bytes?, read, Option.map_some]

/-! ### Messages inside messages -/

variable {Part : Type} {partSchema : Schema}
  {absorbPart : Part → Field → Option Part} {initial : Part}
  {mergePart : Nat → Part → List UInt8 → Option Part}

theorem readNested_encodeFields
    {fields : List Field} {part : Option Part}
    (isMerge : mergePart room = merge partSchema absorbPart room)
    (reads : Reads partSchema absorbPart initial fields part)
    (short :
      (Payload.delimited (encodeFields fields)).encode.length <
        UInt64.size) :
    readNested mergePart (room + 1) initial (.delimited (encodeFields fields)) =
      part := by
  have read :=
    reads.merge room (Nat.lt_of_le_of_lt (length_le_delimited _) short)
  simp only [readNested, Payload.bytes?, isMerge, read]

/-- A message that is written if it is there. -/
theorem Reads.message?
    {part : Option Part} {partFields : Part → List Field}
    (set : Message → Option Part → Message)
    (starts : set message none = message)
    (known : ∀ bytes, schema.knows ⟨number, .delimited bytes⟩ = true)
    (absorbs :
      ∀ payload,
        absorb message ⟨number, payload⟩ =
          (readNested mergePart (room + 1) initial payload).map
            fun held => set message (some held))
    (isMerge : mergePart room = Protobuf.merge partSchema absorbPart room)
    (reads :
      ∀ held, part = some held →
        Reads partSchema absorbPart initial (partFields held) (some held))
    (readRest : Reads schema absorb (set message part) rest outcome) :
    Reads schema absorb message
      (Protobuf.field? number
        (fun held => .delimited (encodeFields (partFields held))) part ++ rest)
      outcome := by
  refine .field? set starts (fun _ => known _) (fun held isHeld short => ?_)
    readRest
  rw [absorbs, readNested_encodeFields isMerge (reads held isHeld) short,
    Option.map_some]

/-- Messages that are put to a list. -/
theorem Reads.messages
    {parts : List Part} {partFields : Part → List Field}
    (set : Message → List Part → Message)
    (starts : set message [] = message)
    (known : ∀ bytes, schema.knows ⟨number, .delimited bytes⟩ = true)
    (absorbs :
      ∀ before payload,
        absorb (set message before) ⟨number, payload⟩ =
          (readNested mergePart (room + 1) initial payload).map
            fun part => set message (before ++ [part]))
    (isMerge : mergePart room = Protobuf.merge partSchema absorbPart room)
    (reads :
      ∀ part ∈ parts,
        Reads partSchema absorbPart initial (partFields part) (some part))
    (readRest : Reads schema absorb (set message parts) rest outcome) :
    Reads schema absorb message
      (parts.map (fun part =>
        ⟨number, .delimited (encodeFields (partFields part))⟩) ++ rest)
      outcome := by
  refine .items (set message) starts (fun _ => known _)
    (fun part member before short => ?_) readRest
  rw [absorbs, readNested_encodeFields isMerge (reads part member) short,
    Option.map_some]

end Fields

/-! ## Spans -/

/-- Whether a number is one that a field for the words of a vocabulary holds. -/
def FitsWord (value : Int) : Prop :=
  -(UInt32.size / 2 : Nat) ≤ value ∧ value < (UInt32.size / 2 : Nat)

theorem int32?_of_fitsWord {value : Int} (fits : FitsWord value) :
    (Payload.ofInt value).int32? = some value :=
  Payload.int32?_ofInt fits.1 fits.2

/-- A field for a word. -/
theorem Reads.word?
    {Message : Type} {schema : Schema}
    {absorb : Message → Field → Option Message} {message : Message}
    {rest : List Field} {number : Nat} {outcome : Option Message}
    {word : Option Int} (set : Message → Option Int → Message)
    (starts : set message none = message)
    (known : ∀ held, schema.knows ⟨number, .ofInt held⟩ = true)
    (absorbs :
      ∀ payload,
        absorb message ⟨number, payload⟩ =
          payload.int32?.map fun held => set message (some held))
    (fits : ∀ held, word = some held → FitsWord held)
    (readRest : Reads schema absorb (set message word) rest outcome) :
    Reads schema absorb message
      (Protobuf.field? number .ofInt word ++ rest) outcome := by
  refine .field? set starts known (fun held isHeld _ => ?_) readRest
  rw [absorbs, int32?_of_fitsWord (fits held isHeld), Option.map_some]

namespace Status

theorem reads
    {status : Status}
    (fits : ∀ code, status.code = some code → FitsWord code) :
    Reads schema absorb {} status.fields (some status) := by
  refine .of_append_nil ?_
  simp only [fields, List.append_assoc]
  refine .simple? (fun status message => { status with message }) rfl
    (fun _ => rfl) (fun _ => rfl) Payload.text?_ofText ?_
  refine .word? (fun status code => { status with code }) rfl
    (fun _ => rfl) (fun _ => rfl) fits ?_
  exact .done

end Status

namespace Event

theorem reads
    {room : Nat} {event : Event} (fits : FitsMap room event.attributes) :
    Reads schema (absorb room) {} event.fields (some event) := by
  refine .of_append_nil ?_
  simp only [fields, List.append_assoc]
  refine .simple? (fun event time => { event with time }) rfl
    (fun _ => rfl) (fun _ => rfl) (fun _ => rfl) ?_
  refine .simple? (fun event name => { event with name }) rfl
    (fun _ => rfl) (fun _ => rfl) Payload.text?_ofText ?_
  refine .attributes (fun event attributes => { event with attributes }) rfl
    (fun _ => rfl) (fun _ _ => rfl) fits ?_
  refine .simple?
    (fun event droppedAttributes => { event with droppedAttributes }) rfl
    (fun _ => rfl) (fun _ => rfl) Payload.uint32?_ofHalfWord ?_
  exact .done

end Event

namespace Link

theorem reads
    {room : Nat} {link : Link} (fits : FitsMap room link.attributes) :
    Reads schema (absorb room) {} link.fields (some link) := by
  refine .of_append_nil ?_
  simp only [fields, List.append_assoc]
  refine .simple? (fun link traceId => { link with traceId }) rfl
    (fun _ => rfl) (fun _ => rfl) (fun _ => rfl) ?_
  refine .simple? (fun link spanId => { link with spanId }) rfl
    (fun _ => rfl) (fun _ => rfl) (fun _ => rfl) ?_
  refine .simple? (fun link traceState => { link with traceState }) rfl
    (fun _ => rfl) (fun _ => rfl) Payload.text?_ofText ?_
  refine .attributes (fun link attributes => { link with attributes }) rfl
    (fun _ => rfl) (fun _ _ => rfl) fits ?_
  refine .simple?
    (fun link droppedAttributes => { link with droppedAttributes }) rfl
    (fun _ => rfl) (fun _ => rfl) Payload.uint32?_ofHalfWord ?_
  refine .simple? (fun link flags => { link with flags }) rfl
    (fun _ => rfl) (fun _ => rfl) (fun _ => rfl) ?_
  exact .done

end Link

namespace Span

/-- Whether the words of a span have their sizes and there is room for its
values. -/
structure Fits (room : Nat) (span : Span) : Prop where
  kind : ∀ kind, span.kind = some kind → FitsWord kind
  status :
    ∀ status, span.status = some status →
      ∀ code, status.code = some code → FitsWord code
  attributes : FitsMap (room + 1) span.attributes
  events : ∀ event ∈ span.events, FitsMap room event.attributes
  links : ∀ link ∈ span.links, FitsMap room link.attributes

theorem reads {room : Nat} {span : Span} (fits : span.Fits room) :
    Reads schema (absorb (room + 1)) {} span.fields (some span) := by
  refine .of_append_nil ?_
  simp only [fields, List.append_assoc]
  refine .simple? (fun span traceId => { span with traceId }) rfl
    (fun _ => rfl) (fun _ => rfl) (fun _ => rfl) ?_
  refine .simple? (fun span spanId => { span with spanId }) rfl
    (fun _ => rfl) (fun _ => rfl) (fun _ => rfl) ?_
  refine .simple? (fun span traceState => { span with traceState }) rfl
    (fun _ => rfl) (fun _ => rfl) Payload.text?_ofText ?_
  refine .simple? (fun span parentId => { span with parentId }) rfl
    (fun _ => rfl) (fun _ => rfl) (fun _ => rfl) ?_
  refine .simple? (fun span name => { span with name }) rfl
    (fun _ => rfl) (fun _ => rfl) Payload.text?_ofText ?_
  refine .word? (fun span kind => { span with kind }) rfl
    (fun _ => rfl) (fun _ => rfl) fits.kind ?_
  refine .simple? (fun span startTime => { span with startTime }) rfl
    (fun _ => rfl) (fun _ => rfl) (fun _ => rfl) ?_
  refine .simple? (fun span endTime => { span with endTime }) rfl
    (fun _ => rfl) (fun _ => rfl) (fun _ => rfl) ?_
  refine .attributes (fun span attributes => { span with attributes }) rfl
    (fun _ => rfl) (fun _ _ => rfl) fits.attributes ?_
  refine .simple?
    (fun span droppedAttributes => { span with droppedAttributes }) rfl
    (fun _ => rfl) (fun _ => rfl) Payload.uint32?_ofHalfWord ?_
  refine .messages (fun span events => { span with events }) rfl
    (fun _ => rfl) (fun _ _ => rfl) rfl
    (fun event member => Event.reads (fits.events event member)) ?_
  refine .simple? (fun span droppedEvents => { span with droppedEvents }) rfl
    (fun _ => rfl) (fun _ => rfl) Payload.uint32?_ofHalfWord ?_
  refine .messages (fun span links => { span with links }) rfl
    (fun _ => rfl) (fun _ _ => rfl) rfl
    (fun link member => Link.reads (fits.links link member)) ?_
  refine .simple? (fun span droppedLinks => { span with droppedLinks }) rfl
    (fun _ => rfl) (fun _ => rfl) Payload.uint32?_ofHalfWord ?_
  refine .message? (fun span status => { span with status }) rfl
    (fun _ => rfl) (fun _ => rfl) rfl
    (fun status isStatus => Status.reads (fits.status status isStatus)) ?_
  refine .simple? (fun span flags => { span with flags }) rfl
    (fun _ => rfl) (fun _ => rfl) (fun _ => rfl) ?_
  exact .done

theorem reads_list
    {room : Nat} {spans : List Span} (fits : ∀ span ∈ spans, span.Fits room) :
    Reads listSchema (absorbItem (room + 2)) [] (listFields spans)
      (some spans) := by
  refine .of_append_nil ?_
  refine .messages (fun _ spans => spans) rfl (fun _ => rfl) (fun _ _ => rfl)
    rfl (fun span member => reads (fits span member)) ?_
  exact .done

end Span

/-! ## Information about a trace -/

namespace Location

theorem reads_part (name : Option String) :
    Reads partSchema absorbPart none (partFields name) (some name) := by
  refine .of_append_nil ?_
  refine .simple? (fun _ name => name) rfl (fun _ => rfl) (fun _ => rfl)
    Payload.text?_ofText ?_
  exact .done

theorem reads
    {room : Nat} {location : Location}
    (fits : ∀ kind, location.kind = some kind → FitsWord kind) :
    Reads schema (absorb (room + 1)) {} location.fields (some location) := by
  refine .of_append_nil ?_
  simp only [fields, List.append_assoc]
  refine .word? (fun location kind => { location with kind }) rfl
    (fun _ => rfl) (fun _ => rfl) fits ?_
  refine .message? (fun location experiment => { location with experiment })
    rfl (fun _ => rfl) (fun _ => rfl) rfl (fun name _ => reads_part name) ?_
  refine .message?
    (fun location inferenceTable => { location with inferenceTable }) rfl
    (fun _ => rfl) (fun _ => rfl) rfl (fun name _ => reads_part name) ?_
  exact .done

end Location

namespace SplitTime

/-- Whether the seconds of a time have 64 bits and its nanoseconds 32. -/
structure Fits (time : SplitTime) : Prop where
  least : -(UInt64.size / 2 : Nat) ≤ time.seconds
  most : time.seconds < (UInt64.size / 2 : Nat)
  nanos : FitsWord time.nanos

theorem reads {time : SplitTime} (fits : time.Fits) :
    Reads schema absorb {} time.fields (some time) := by
  have readsSeconds {rest : List Field}
      (readRest :
        Reads schema absorb { seconds := time.seconds } rest (some time)) :
      Reads schema absorb {} (nonZeroField 1 time.seconds ++ rest)
        (some time) := by
    unfold nonZeroField
    split
    · rename_i isZero
      rw [isZero] at readRest
      exact readRest
    · refine .cons rfl (fun _ => ?_) readRest
      simp only [absorb, Payload.int64?_ofInt fits.least fits.most,
        Option.map_some]
  have readsNanos :
      Reads schema absorb { seconds := time.seconds }
        (nonZeroField 2 time.nanos) (some time) := by
    unfold nonZeroField
    split
    · rename_i isZero
      have same : time = { seconds := time.seconds } := by
        rw [← isZero]
      rw [same]
      exact .done
    · refine .single rfl fun _ => ?_
      simp only [absorb, int32?_of_fitsWord fits.nanos, Option.map_some]
  exact readsSeconds readsNanos

end SplitTime

namespace TraceInfo

/-- Whether the words and times of the information about a trace have their
sizes and the keys in its assessments are in order. -/
structure Fits (info : TraceInfo) : Prop where
  location :
    ∀ location, info.location = some location →
      ∀ kind, location.kind = some kind → FitsWord kind
  requestTime : ∀ time, info.requestTime = some time → time.Fits
  executionDuration : ∀ time, info.executionDuration = some time → time.Fits
  state : ∀ state, info.state = some state → FitsWord state
  assessments :
    ∀ assessment ∈ info.assessments,
      ∃ bound, Value.OrderedStruct bound assessment

/-- Information about a trace is read if there is room for all assessments. -/
theorem reads {info : TraceInfo} (fits : info.Fits) (room : Nat) :
    Reads schema (absorb (room + 2)) {} info.fields
      (if ∀ assessment ∈ info.assessments,
          Value.levelsOfEntries assessment ≤ room + 1 then
        some info
      else none) := by
  refine .of_append_nil ?_
  simp only [fields, List.append_assoc]
  refine .simple? (fun info traceId => { info with traceId }) rfl
    (fun _ => rfl) (fun _ => rfl) Payload.text?_ofText ?_
  refine .simple? (fun info clientRequestId => { info with clientRequestId })
    rfl (fun _ => rfl) (fun _ => rfl) Payload.text?_ofText ?_
  refine .message? (fun info location => { info with location }) rfl
    (fun _ => rfl) (fun _ => rfl) rfl
    (fun location isLocation =>
      Location.reads (fits.location location isLocation)) ?_
  refine .simple? (fun info request => { info with request }) rfl
    (fun _ => rfl) (fun _ => rfl) Payload.text?_ofText ?_
  refine .simple? (fun info response => { info with response }) rfl
    (fun _ => rfl) (fun _ => rfl) Payload.text?_ofText ?_
  refine .message? (fun info requestTime => { info with requestTime }) rfl
    (fun _ => rfl) (fun _ => rfl) rfl
    (fun time isTime => SplitTime.reads (fits.requestTime time isTime)) ?_
  refine .message?
    (fun info executionDuration => { info with executionDuration }) rfl
    (fun _ => rfl) (fun _ => rfl) rfl
    (fun time isTime => SplitTime.reads (fits.executionDuration time isTime))
    ?_
  refine .word? (fun info state => { info with state }) rfl
    (fun _ => rfl) (fun _ => rfl) fits.state ?_
  refine .texts (fun info metadata => { info with metadata }) rfl
    (fun _ => rfl) (fun _ _ => rfl) ?_
  refine .itemsWithin _
    (fun assessments => { info with assessments, tags := .empty }) rfl
    (fun _ => rfl) (fun assessment member before short => ?_) ?_
  · obtain ⟨bound, ascending, ordered⟩ := fits.assessments assessment member
    have read :=
      Value.mergeStruct_encodeEntries ascending
        (Value.reappears_of_mem_entries assessment ordered) (room + 1)
        (Nat.lt_of_le_of_lt (length_le_delimited _) short)
    simp only [absorb, readNested, Payload.bytes?, read]
    exact apply_ite (Option.map _) _ _ _
  · refine .texts (fun info tags => { info with tags }) rfl
      (fun _ => rfl) (fun _ _ => rfl) ?_
    exact .done

end TraceInfo

namespace Trace

theorem reads_fields (trace : Trace) :
    Reads schema (absorb depthLimit) {} trace.fields
      (absorbAll (absorb depthLimit) {} trace.fields) where
  known := by
    obtain ⟨info, spans⟩ := trace
    cases info with
    | none =>
        cases spans with
        | none => exact List.forall_mem_nil _
        | some spans => exact List.forall_mem_singleton.mpr rfl
    | some info =>
        cases spans with
        | none => exact List.forall_mem_singleton.mpr rfl
        | some spans =>
            exact List.forall_mem_cons.mpr
              ⟨rfl, List.forall_mem_singleton.mpr rfl⟩
  absorbed _ := rfl

/-- Without its spans no more is read of a trace than the information about
it. -/
theorem spans_of_decode?
    {info : Option TraceInfo} {before : Trace}
    (short : (encode { info }).length < UInt64.size)
    (decoded : decode? (encode { info }) = some before) :
    before.spans = none := by
  have absorbed :
      absorbAll (absorb depthLimit) {} (fields { info }) = some before :=
    ((reads_fields { info }).merge depthLimit short).symm.trans decoded
  cases info with
  | none =>
      cases absorbed
      rfl
  | some info =>
      simp only [fields, field?, List.append_nil, absorbAll] at absorbed
      split at absorbed
      · cases absorbed
      · rename_i changed isChanged
        cases absorbed
        obtain ⟨held, -, rfl⟩ := Option.map_eq_some_iff.mp isChanged
        rfl

theorem length_encode_info_le (info : Option TraceInfo) (spans : List Span) :
    (encode { info }).length ≤
      (encode { info, spans := some spans }).length := by
  simp only [encode, fields, field?, List.append_nil, encodeFields_append,
    List.length_append]
  exact Nat.le_add_right _ _

/-- Spans with room for their values are read after whatever is read without
them. -/
theorem decode?_encode_spans
    {info : Option TraceInfo} {spans : List Span}
    (fits : ∀ span ∈ spans, span.Fits 97)
    (short : (encode { info, spans := some spans }).length < UInt64.size) :
    decode? (encode { info, spans := some spans }) =
      (decode? (encode { info })).map
        fun before => { before with spans := some spans } := by
  have shortInfo :=
    Nat.lt_of_le_of_lt (length_encode_info_le info spans) short
  have whole :
      fields { info, spans := some spans } =
        fields { info } ++
          [⟨2, .delimited (encodeFields (Span.listFields spans))⟩] := by
    simp only [fields, field?, List.append_nil]
  have readInfo : decode? (encode { info }) = _ :=
    (reads_fields { info }).merge depthLimit shortInfo
  have shortSpans :
      (Payload.delimited
        (encodeFields (Span.listFields spans))).encode.length <
          UInt64.size := by
    rw [encode, whole, encodeFields_append, List.length_append,
      encodeFields_singleton] at short
    have payload :=
      length_payload_le
        ⟨2, .delimited (encodeFields (Span.listFields spans))⟩
    dsimp only at payload
    omega
  have readSpans :=
    readNested_encodeFields (rfl : Span.mergeList 99 = _)
      (Span.reads_list fits) shortSpans
  calc decode? (encode { info, spans := some spans })
      = absorbAll (absorb depthLimit) {}
          (fields { info, spans := some spans }) :=
        (reads_fields _).merge depthLimit short
    _ = (decode? (encode { info })).bind fun before =>
          absorbAll (absorb depthLimit) before
            [⟨2, .delimited (encodeFields (Span.listFields spans))⟩] := by
        rw [whole, absorbAll_append, readInfo]
    _ = (decode? (encode { info })).map
          fun before => { before with spans := some spans } := by
        cases decoded : decode? (encode { info }) with
        | none => rfl
        | some before =>
            have isNone := spans_of_decode? shortInfo decoded
            simp only [Option.bind_some, absorbAll, absorb, isNone,
              Option.getD_none, depthLimit, readSpans, Option.map_some]

/-- Information about a trace is read alone if there is room for all
assessments. -/
theorem decode?_encode_info
    {info : TraceInfo} (fits : info.Fits)
    (short : (encode { info := some info }).length < UInt64.size) :
    decode? (encode { info := some info }) =
      if ∀ assessment ∈ info.assessments,
          Value.levelsOfEntries assessment ≤ 98 then
        some { info := some info }
      else none := by
  have reads :
      Reads schema (absorb depthLimit) {} (fields { info := some info })
        (if ∀ assessment ∈ info.assessments,
            Value.levelsOfEntries assessment ≤ 98 then
          some { info := some info }
        else none) := by
    refine .single rfl fun shortInfo => ?_
    have read :=
      readNested_encodeFields (rfl : TraceInfo.merge 99 = _)
        (TraceInfo.reads fits 97) shortInfo
    calc absorb depthLimit {} ⟨1, .delimited info.encode⟩
        = (readNested TraceInfo.merge 100 {} (.delimited info.encode)).map
            fun held => { info := some held } := rfl
      _ = _ := by
          rw [TraceInfo.encode, read]
          exact apply_ite (Option.map _) _ _ _
  exact reads.merge depthLimit short

end Trace

end TraceArchive.Protobuf
