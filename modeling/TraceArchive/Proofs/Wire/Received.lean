import TraceArchive.Proofs.Protobuf.Ordered
import TraceArchive.Proofs.Wire.Text

/-!
# Messages that were read

Whatever the body, the arbitrary values in a message that was read can be
written and read again: their numbers are finite, the keys of their objects are
in ascending order, and they are not nested too deeply. The main statement is
`Wire.Format.received_of_decode`.
-/

namespace TraceArchive

open Json (Readable RecordField RecordForm Reader)

namespace Wire

/-- Whether the values of a map can be read where there is some room. -/
def ReadableMap (room : Nat) (map : KeyMap Json) : Prop :=
  ∀ entry ∈ map.entries, Readable room entry.2

theorem ReadableMap.mono
    {room more : Nat} (atMost : room ≤ more) {map : KeyMap Json}
    (readable : ReadableMap room map) : ReadableMap more map :=
  fun entry member => Readable.mono entry.2 atMost (readable entry member)

theorem readableMap_empty (room : Nat) : ReadableMap room .empty :=
  fun _ member => absurd member List.not_mem_nil

/-- What holds of every message that was read. -/
structure Trace.Received (trace : Trace) : Prop where
  assessments :
    ∀ info, trace.info = some info →
      ∀ assessment ∈ info.assessments, Readable 124 assessment
  attributes :
    ∀ spans, trace.spans = some spans →
      ∀ span ∈ spans, ∀ map ∈ span.attributeMaps, ReadableMap 126 map

/-! ## Messages in JSON -/

section Text

variable {room : Nat} {document : Json.Document}

theorem readable_of_attributesReader
    {map : KeyMap Json} (read : attributesReader room document = .ok map) :
    ReadableMap room map := by
  cases room with
  | zero => cases read
  | succ less =>
      intro entry member
      obtain ⟨inner, readEntry⟩ := Reader.read_of_mem_keyMap read entry member
      apply Readable.mono entry.2 (Nat.le_succ less)
      exact Json.readable_of_json inner readEntry

theorem Event.readable_of_read
    {event : Event} (read : Event.form.read room document = .ok event) :
    ReadableMap room event.attributes := by
  cases room with
  | zero => cases read
  | succ less =>
      have keeps : ∀ field ∈ Event.form.fields, field.Keeps less
          fun event => ReadableMap less event.attributes := by
        simp only [Event.form, List.forall_mem_cons]
        refine ⟨?_, ?_, ?_, ?_, List.forall_mem_nil _⟩
        -- the other fields do not matter
        all_goals try exact RecordField.keeps_of_unused fun _ _ => id
        · exact RecordField.keeps_of fun _ _ ⟨_, readMap⟩ _ =>
            readable_of_attributesReader readMap
      apply ReadableMap.mono (Nat.le_succ less)
      exact RecordForm.holds_of_read keeps (readableMap_empty less) read

theorem Link.readable_of_read
    {link : Link} (read : Link.form.read room document = .ok link) :
    ReadableMap room link.attributes := by
  cases room with
  | zero => cases read
  | succ less =>
      have keeps : ∀ field ∈ Link.form.fields, field.Keeps less
          fun link => ReadableMap less link.attributes := by
        simp only [Link.form, List.forall_mem_cons]
        refine ⟨?_, ?_, ?_, ?_, ?_, ?_, List.forall_mem_nil _⟩
        -- the other fields do not matter
        all_goals try exact RecordField.keeps_of_unused fun _ _ => id
        · exact RecordField.keeps_of fun _ _ ⟨_, readMap⟩ _ =>
            readable_of_attributesReader readMap
      apply ReadableMap.mono (Nat.le_succ less)
      exact RecordForm.holds_of_read keeps (readableMap_empty less) read

/-- Whether the attributes of a span, of its events and of its links can be read
where there is some room. -/
def Span.Readable (room : Nat) (span : Span) : Prop :=
  ReadableMap room span.attributes ∧
    (∀ event ∈ span.events, ReadableMap room event.attributes) ∧
      ∀ link ∈ span.links, ReadableMap room link.attributes

theorem Span.Readable.attributeMaps
    {span : Span} (readable : span.Readable room) :
    ∀ map ∈ span.attributeMaps, ReadableMap room map := by
  intro map member
  simp only [Span.attributeMaps, List.mem_cons, List.mem_append,
    List.mem_map] at member
  rcases member with rfl | ⟨event, inEvents, rfl⟩ | ⟨link, inLinks, rfl⟩
  · exact readable.1
  · exact readable.2.1 event inEvents
  · exact readable.2.2 link inLinks

theorem readable_of_mem_list
    {Value : Type} {reader : Reader Value} {attributes : Value → KeyMap Json}
    (ofRead :
      ∀ {room : Nat} {document : Json.Document} {value : Value},
        reader room document = .ok value →
          ReadableMap room (attributes value))
    {values : List Value} (read : Reader.list reader room document = .ok values) :
    ∀ value ∈ values, ReadableMap room (attributes value) := by
  cases room with
  | zero => cases read
  | succ less =>
      intro value member
      obtain ⟨inner, readValue⟩ := Reader.read_of_mem_list read value member
      exact (ofRead readValue).mono (Nat.le_succ less)

theorem Span.readable_of_read
    {span : Span} (read : Span.form.read room document = .ok span) :
    span.Readable room := by
  cases room with
  | zero => cases read
  | succ less =>
      have keeps : ∀ field ∈ Span.form.fields, field.Keeps less
          fun span =>
            ReadableMap (less + 1) span.attributes ∧
              (∀ event ∈ span.events,
                ReadableMap (less + 1) event.attributes) ∧
                ∀ link ∈ span.links,
                  ReadableMap (less + 1) link.attributes := by
        simp only [Span.form, List.forall_mem_cons]
        refine ⟨?_, ?_, ?_, ?_, ?_, ?_, ?_, ?_, ?_, ?_, ?_, ?_, ?_, ?_, ?_, ?_,
          List.forall_mem_nil _⟩
        -- the other fields do not matter
        all_goals try exact RecordField.keeps_of_unused fun _ _ => id
        · refine RecordField.keeps_of fun _ _ ⟨_, readMap⟩ holds => ?_
          have readable := readable_of_attributesReader readMap
          exact ⟨readable.mono (Nat.le_succ less), holds.2⟩
        · refine RecordField.keeps_of fun _ _ ⟨_, readEvents⟩ holds => ?_
          have readable :=
            readable_of_mem_list Event.readable_of_read readEvents
          exact
            ⟨holds.1,
              fun event member =>
                (readable event member).mono (Nat.le_succ less),
              holds.2.2⟩
        · refine RecordField.keeps_of fun _ _ ⟨_, readLinks⟩ holds => ?_
          have readable := readable_of_mem_list Link.readable_of_read readLinks
          exact
            ⟨holds.1, holds.2.1,
              fun link member =>
                (readable link member).mono (Nat.le_succ less)⟩
      refine RecordForm.holds_of_read keeps ⟨?_, ?_, ?_⟩ read
      · exact readableMap_empty (less + 1)
      · exact List.forall_mem_nil _
      · exact List.forall_mem_nil _

theorem Span.readable_of_readList
    {spans : List Span} (read : Span.listForm.read room document = .ok spans) :
    ∀ span ∈ spans, ∀ map ∈ span.attributeMaps, ReadableMap room map := by
  cases room with
  | zero => cases read
  | succ less =>
      have keeps : ∀ field ∈ Span.listForm.fields, field.Keeps less
          fun spans =>
            ∀ span ∈ spans, ∀ map ∈ span.attributeMaps,
              ReadableMap (less + 1) map := by
        simp only [Span.listForm, List.forall_mem_cons]
        refine ⟨?_, List.forall_mem_nil _⟩
        refine RecordField.keeps_of fun _ spans ⟨_, readSpans⟩ _ => ?_
        cases less with
        | zero => cases readSpans
        | succ evenLess =>
            intro span member map inSpan
            obtain ⟨inner, readSpan⟩ :=
              Reader.read_of_mem_list readSpans span member
            have readable := (Span.readable_of_read readSpan).attributeMaps
            exact (readable map inSpan).mono (by omega)
      exact RecordForm.holds_of_read keeps (List.forall_mem_nil _) read

theorem TraceInfo.readable_of_read
    {info : TraceInfo}
    (read : TraceInfo.form.read (room + 2) document = .ok info) :
    ∀ assessment ∈ info.assessments, Readable room assessment := by
  have keeps : ∀ field ∈ TraceInfo.form.fields, field.Keeps (room + 1)
      fun info => ∀ assessment ∈ info.assessments, Readable room assessment := by
    simp only [TraceInfo.form, List.forall_mem_cons]
    refine ⟨?_, ?_, ?_, ?_, ?_, ?_, ?_, ?_, ?_, ?_, ?_,
      List.forall_mem_nil _⟩
    -- the other fields do not matter
    all_goals try exact RecordField.keeps_of_unused fun _ _ => id
    refine RecordField.keeps_of fun _ values ⟨_, readValues⟩ _ => ?_
    intro assessment member
    obtain ⟨inner, readValue⟩ :=
      Reader.read_of_mem_list readValues assessment member
    exact Json.readable_of_json inner readValue
  exact RecordForm.holds_of_read keeps (List.forall_mem_nil _) read

/-- What holds of every message that was read from JSON. -/
theorem Trace.received_of_read
    {trace : Trace}
    (read : Trace.form.read Json.depthLimit document = .ok trace) :
    trace.Received := by
  have keeps : ∀ field ∈ Trace.form.fields, field.Keeps 126 Received := by
    simp only [Trace.form, List.forall_mem_cons]
    refine ⟨?_, ?_, List.forall_mem_nil _⟩
    · apply RecordField.Keeps.orNamed
      refine RecordField.keeps_of fun _ _ ⟨_, readInfo⟩ received => ?_
      refine ⟨?_, received.attributes⟩
      rintro info rfl
      exact TraceInfo.readable_of_read (Reader.read_of_optional readInfo)
    · apply RecordField.Keeps.orNamed
      refine RecordField.keeps_of fun _ _ ⟨_, readSpans⟩ received => ?_
      refine ⟨received.assessments, ?_⟩
      rintro spans rfl
      exact Span.readable_of_readList (Reader.read_of_optional readSpans)
  have initial : Received {} := ⟨fun _ => nofun, fun _ => nofun⟩
  exact RecordForm.holds_of_read keeps initial read

end Text

end Wire

/-! ## Messages in binary form -/

namespace Protobuf.Value

theorem keys_toJsonEntries
    (path : String) (entries : List (String × Value)) :
    (toJsonEntries path entries).1.map Prod.fst = entries.map Prod.fst := by
  induction entries with
  | nil => rfl
  | cons entry rest inductionHypothesis =>
      obtain ⟨key, value⟩ := entry
      simp only [toJsonEntries, List.map_cons, inductionHypothesis]

mutual

theorem readable_toJson :
    ∀ (value : Value) (path : String) {room : Nat}, value.Ordered room →
      Readable room (value.toJson path).1
  | .absent, _, _, _ => trivial
  | .null, _, _, _ => trivial
  | .number value, path, _, _ => by
      unfold toJson
      split
      · rename_i finite
        exact finite
      · trivial
  | .string _, _, _, _ => trivial
  | .boolean _, _, _, _ => trivial
  | .struct entries, path, _, ordered => by
      have ascending : Entries.Ascending (toJsonEntries path entries).1 :=
        ordered.2.1.of_keys (keys_toJsonEntries path entries)
      exact ⟨ordered.1, ascending,
        readableEntries_toJsonEntries entries path ordered.2.2⟩
  | .list items, path, _, ordered =>
      ⟨ordered.1, readableItems_toJsonItems items path 0 ordered.2⟩

theorem readableItems_toJsonItems :
    ∀ (items : List Value) (path : String) (index : Nat) {room : Nat},
      OrderedItems room items →
        Json.ReadableItems room (toJsonItems path index items).1
  | [], _, _, _, _ => trivial
  | item :: rest, path, index, _, ordered =>
      ⟨readable_toJson item _ ordered.1,
        readableItems_toJsonItems rest path (index + 1) ordered.2⟩

theorem readableEntries_toJsonEntries :
    ∀ (entries : List (String × Value)) (path : String) {room : Nat},
      OrderedEntries room entries →
        Json.ReadableEntries room (toJsonEntries path entries).1
  | [], _, _, _ => trivial
  | (_, value) :: rest, path, _, ordered =>
      ⟨readable_toJson value _ ordered.1,
        readableEntries_toJsonEntries rest path ordered.2⟩

end

end Protobuf.Value

namespace Wire

section Binary

variable {room : Nat}

theorem exists_of_map_eq_ok
    {Failure Left Right : Type} {function : Left → Right}
    {given : Except Failure Left} {result : Right}
    (isOk : given.map function = .ok result) :
    ∃ value, given = .ok value ∧ result = function value := by
  cases given with
  | error failure => cases isOk
  | ok value =>
      cases isOk
      exact ⟨value, rfl, rfl⟩

theorem readable_attributeList
    (lead : String) {entries : List (String × Protobuf.Value)}
    (ordered : ∀ entry ∈ entries, entry.2.Ordered room) :
    ∀ entry ∈ (attributeList lead entries).1, Readable room entry.2 := by
  induction entries with
  | nil => exact List.forall_mem_nil _
  | cons entry rest inductionHypothesis =>
      obtain ⟨key, value⟩ := entry
      rw [List.forall_mem_cons] at ordered
      have first :=
        Protobuf.Value.readable_toJson value (lead ++ "attributes." ++ key)
          ordered.1
      have others := inductionHypothesis ordered.2
      exact List.forall_mem_cons.mpr ⟨first, others⟩

theorem readable_attributesOfBinary
    (lead : String) {attributes : KeyMap Protobuf.Value}
    (ordered : Protobuf.OrderedMap room attributes) :
    ReadableMap room (attributesOfBinary lead attributes).1 :=
  fun entry member =>
    readable_attributeList lead ordered entry
      (KeyMap.mem_of_mem_ofList member)

theorem Event.readable_ofBinaryList
    {events : List Protobuf.Event}
    (ordered :
      ∀ event ∈ events, Protobuf.OrderedMap room event.attributes)
    (index : Nat) :
    ∀ event ∈ (Event.ofBinaryList index events).1,
      ReadableMap room event.attributes := by
  induction events generalizing index with
  | nil => exact List.forall_mem_nil _
  | cons event rest inductionHypothesis =>
      rw [List.forall_mem_cons] at ordered
      have first :=
        readable_attributesOfBinary ("events[" ++ toString index ++ "].")
          ordered.1
      have others := inductionHypothesis ordered.2 (index + 1)
      exact List.forall_mem_cons.mpr ⟨first, others⟩

theorem Link.readable_ofBinaryList
    {links : List Protobuf.Link}
    (ordered : ∀ link ∈ links, Protobuf.OrderedMap room link.attributes)
    (index : Nat) :
    ∀ link ∈ (Link.ofBinaryList index links).1,
      ReadableMap room link.attributes := by
  induction links generalizing index with
  | nil => exact List.forall_mem_nil _
  | cons link rest inductionHypothesis =>
      rw [List.forall_mem_cons] at ordered
      have first :=
        readable_attributesOfBinary ("links[" ++ toString index ++ "].")
          ordered.1
      have others := inductionHypothesis ordered.2 (index + 1)
      exact List.forall_mem_cons.mpr ⟨first, others⟩

theorem Span.readable_of_ofBinary
    {binary : Protobuf.Span} {span : Span}
    (isMessage : Span.ofBinary binary = .ok span)
    (ordered : binary.Ordered room) : span.Readable room := by
  unfold Span.ofBinary at isMessage
  dsimp only at isMessage
  split at isMessage
  · cases isMessage
  · split at isMessage
    · cases isMessage
    · cases isMessage
      exact
        ⟨readable_attributesOfBinary "" ordered.1,
          Event.readable_ofBinaryList ordered.2.1 0,
          Link.readable_ofBinaryList ordered.2.2 0⟩

theorem Span.readable_of_ofBinaryList
    {binaries : List Protobuf.Span} {spans : List Span}
    (areMessages : Span.ofBinaryList binaries = .ok spans)
    (ordered : ∀ binary ∈ binaries, binary.Ordered room) :
    ∀ span ∈ spans, span.Readable room := by
  induction binaries generalizing spans with
  | nil =>
      cases areMessages
      exact List.forall_mem_nil _
  | cons binary rest inductionHypothesis =>
      simp only [Span.ofBinaryList] at areMessages
      split at areMessages
      · cases areMessages
      · rename_i span isMessage
        split at areMessages
        · cases areMessages
        · rename_i others areOthers
          cases areMessages
          rw [List.forall_mem_cons] at ordered ⊢
          exact
            ⟨Span.readable_of_ofBinary isMessage ordered.1,
              inductionHypothesis areOthers ordered.2⟩

theorem readable_of_assessmentsOfBinary
    {index : Nat} {binaries : List (List (String × Protobuf.Value))}
    {assessments : List Json}
    (areMessages : assessmentsOfBinary index binaries = .ok assessments)
    (ordered :
      ∀ binary ∈ binaries, Protobuf.Value.OrderedStruct room binary) :
    ∀ assessment ∈ assessments, Readable (room + 1) assessment := by
  induction binaries generalizing index assessments with
  | nil =>
      cases areMessages
      exact List.forall_mem_nil _
  | cons binary rest inductionHypothesis =>
      simp only [assessmentsOfBinary] at areMessages
      split at areMessages
      · cases areMessages
      · rename_i values isObject
        split at areMessages
        · cases areMessages
        · rename_i others areOthers
          cases areMessages
          rw [List.forall_mem_cons] at ordered ⊢
          have object :=
            Protobuf.Value.readable_toJson (.struct binary)
              (AttributeValue.itemPath "assessments" index)
              (⟨Nat.succ_pos room, ordered.1⟩ :
                Protobuf.Value.Ordered (room + 1) (.struct binary))
          simp only [Protobuf.Value.toJson, isObject] at object
          exact ⟨object, inductionHypothesis areOthers ordered.2⟩

theorem TraceInfo.readable_of_ofBinary
    {binary : Protobuf.TraceInfo} {info : TraceInfo}
    (isMessage : TraceInfo.ofBinary binary = .ok info)
    (ordered :
      ∀ assessment ∈ binary.assessments,
        Protobuf.Value.OrderedStruct room assessment) :
    ∀ assessment ∈ info.assessments, Readable (room + 1) assessment := by
  unfold TraceInfo.ofBinary at isMessage
  split at isMessage
  · cases isMessage
  · split at isMessage
    · cases isMessage
    · split at isMessage
      · cases isMessage
      · split at isMessage
        · cases isMessage
        · split at isMessage
          · cases isMessage
          · rename_i assessments areMessages
            cases isMessage
            exact readable_of_assessmentsOfBinary areMessages ordered

/-- What holds of every message that was read from binary form. -/
theorem Trace.received_of_ofBinary
    {binary : Protobuf.Trace} {trace : Trace}
    (isMessage : Trace.ofBinary binary = .ok trace)
    (ordered : binary.Ordered 99) : trace.Received := by
  unfold Trace.ofBinary at isMessage
  split at isMessage
  · cases isMessage
  · rename_i info? isInfo
    split at isMessage
    · cases isMessage
    · rename_i spans? isSpans
      cases isMessage
      constructor
      · rintro info rfl assessment member
        cases hasInfo : binary.info with
        | none =>
            rw [hasInfo] at isInfo
            cases isInfo
        | some held =>
            rw [hasInfo] at isInfo
            obtain ⟨_, isMessage, ⟨⟩⟩ := exists_of_map_eq_ok isInfo
            apply Readable.mono assessment (by omega : 99 + 1 ≤ 124)
            exact TraceInfo.readable_of_ofBinary isMessage
              (ordered.assessments held hasInfo) assessment member
      · rintro spans rfl span member map inSpan
        cases hasSpans : binary.spans with
        | none =>
            rw [hasSpans] at isSpans
            cases isSpans
        | some held =>
            rw [hasSpans] at isSpans
            obtain ⟨_, areMessages, ⟨⟩⟩ := exists_of_map_eq_ok isSpans
            have readable :=
              Span.readable_of_ofBinaryList areMessages
                (ordered.spans held hasSpans) span member
            exact (readable.attributeMaps map inSpan).mono (by omega)

end Binary

/-- What holds of every message that was read from a body. -/
theorem Format.received_of_decode
    {format : Format} {body : List UInt8} {message : Trace}
    (decoded : format.decode body = .ok message) : message.Received := by
  unfold decode at decoded
  cases format with
  | json =>
      simp only at decoded
      split at decoded
      · cases decoded
      · rename_i trace read
        cases decoded
        obtain ⟨_, readTrace⟩ := Json.read_of_readBytes read
        exact Trace.received_of_read readTrace
  | protobuf =>
      simp only at decoded
      split at decoded
      · cases decoded
      · rename_i binary isBinary
        exact Trace.received_of_ofBinary decoded
          (Protobuf.Trace.ordered_of_decode? isBinary)

end Wire

end TraceArchive
