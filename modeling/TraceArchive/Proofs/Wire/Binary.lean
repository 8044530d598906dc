import TraceArchive.Proofs.Attribute.Domain
import TraceArchive.Proofs.Protobuf.Message
import TraceArchive.Proofs.Wire.Message
import TraceArchive.Proofs.Wire.Received

/-!
# Messages that travelled in binary form

The binary form keeps everything of a message but how its numbers were written:
in their place stand the doubles next to them. There is always room for the
attributes of spans, for each of their levels takes at most three messages.
-/

namespace TraceArchive

/-! ## Values with doubles -/

namespace Json

mutual

/-- A value with the double next to each number in its place. -/
def asDoubles : Json → Json
  | .number value => .number (.double value.toDouble)
  | .list items => .list (asDoublesItems items)
  | .object entries => .object (asDoublesEntries entries)
  | other => other

/-- The values of a list with doubles. -/
def asDoublesItems : List Json → List Json
  | [] => []
  | item :: rest => asDoubles item :: asDoublesItems rest

/-- The entries of an object with doubles. -/
def asDoublesEntries : List (String × Json) → List (String × Json)
  | [] => []
  | (key, value) :: rest => (key, asDoubles value) :: asDoublesEntries rest

end

mutual

theorem onlyFinite_of_readable :
    ∀ (value : Json) {room : Nat}, value.Readable room →
      value.onlyFinite = true
  | .null, _, _ => rfl
  | .boolean _, _, _ => rfl
  | .number _, _, finite => finite
  | .string _, _, _ => rfl
  | .list items, _, readable => onlyFiniteItems_of_readable items readable.2
  | .object entries, _, readable =>
      onlyFiniteEntries_of_readable entries readable.2.2

theorem onlyFiniteItems_of_readable :
    ∀ (items : List Json) {room : Nat}, ReadableItems room items →
      onlyFiniteItems items = true
  | [], _, _ => rfl
  | item :: rest, _, readable => by
      rw [onlyFiniteItems, onlyFinite_of_readable item readable.1,
        onlyFiniteItems_of_readable rest readable.2, Bool.and_self]

theorem onlyFiniteEntries_of_readable :
    ∀ (entries : List (String × Json)) {room : Nat},
      ReadableEntries room entries → onlyFiniteEntries entries = true
  | [], _, _ => rfl
  | (_, value) :: rest, _, readable => by
      rw [onlyFiniteEntries, onlyFinite_of_readable value readable.1,
        onlyFiniteEntries_of_readable rest readable.2, Bool.and_self]

end

end Json

namespace Protobuf.Value

open Json (asDoubles asDoublesItems asDoublesEntries onlyFinite
  onlyFiniteItems onlyFiniteEntries)

mutual

/-- A finite value comes back with doubles, and nothing is left out. -/
theorem toJson_ofJson :
    ∀ (value : Json) (path : String), value.onlyFinite = true →
      (ofJson value).toJson path = (value.asDoubles, [])
  | .null, _, _ => rfl
  | .boolean _, _, _ => rfl
  | .number value, path, finite => by
      have finiteDouble : value.toDouble.isFinite = true :=
        value.isFinite_toDouble.trans finite
      simp only [ofJson, toJson, finiteDouble, if_true, asDoubles]
  | .string _, _, _ => rfl
  | .list items, path, finite => by
      simp only [ofJson, toJson, toJsonItems_ofJsonItems items path 0 finite,
        asDoubles]
  | .object entries, path, finite => by
      simp only [ofJson, toJson,
        toJsonEntries_ofJsonEntries entries path finite, asDoubles]

theorem toJsonItems_ofJsonItems :
    ∀ (items : List Json) (path : String) (index : Nat),
      onlyFiniteItems items = true →
        toJsonItems path index (ofJsonItems items) = (asDoublesItems items, [])
  | [], _, _, _ => rfl
  | item :: rest, path, index, finite => by
      rw [onlyFiniteItems, Bool.and_eq_true] at finite
      simp only [ofJsonItems, toJsonItems, toJson_ofJson item _ finite.1,
        toJsonItems_ofJsonItems rest path (index + 1) finite.2,
        asDoublesItems, List.append_nil]

theorem toJsonEntries_ofJsonEntries :
    ∀ (entries : List (String × Json)) (path : String),
      onlyFiniteEntries entries = true →
        toJsonEntries path (ofJsonEntries entries) =
          (asDoublesEntries entries, [])
  | [], _, _ => rfl
  | (key, value) :: rest, path, finite => by
      rw [onlyFiniteEntries, Bool.and_eq_true] at finite
      simp only [ofJsonEntries, toJsonEntries,
        toJson_ofJson value _ finite.1,
        toJsonEntries_ofJsonEntries rest path finite.2, asDoublesEntries,
        List.append_nil]

end

/-! ### Levels of binary values -/

mutual

/-- Each level of a value takes at most three messages, but a simple value
takes none and an empty one takes one. -/
theorem levels_ofJson :
    ∀ value : Json, (ofJson value).levels + 2 ≤ 3 * value.depth
  | .null => Nat.le_of_ble_eq_true rfl
  | .boolean _ => Nat.le_of_ble_eq_true rfl
  | .number _ => Nat.le_of_ble_eq_true rfl
  | .string _ => Nat.le_of_ble_eq_true rfl
  | .list items => by
      have inside := levelsOfItems_ofJsonItems items
      rw [ofJson, levels, Json.depth]
      omega
  | .object entries => by
      have inside := levelsOfEntries_ofJsonEntries entries
      rw [ofJson, levels, Json.depth]
      omega

theorem levelsOfItems_ofJsonItems :
    ∀ items : List Json,
      levelsOfItems (ofJsonItems items) ≤ 3 * Json.depthOfItems items
  | [] => Nat.le_refl 0
  | item :: rest => by
      have first := levels_ofJson item
      have others := levelsOfItems_ofJsonItems rest
      rw [ofJsonItems, levelsOfItems, Json.depthOfItems]
      omega

theorem levelsOfEntries_ofJsonEntries :
    ∀ entries : List (String × Json),
      levelsOfEntries (ofJsonEntries entries) ≤ 3 * Json.depthOfEntries entries
  | [] => Nat.le_refl 0
  | (_, value) :: rest => by
      have first := levels_ofJson value
      have others := levelsOfEntries_ofJsonEntries rest
      rw [ofJsonEntries, levelsOfEntries, Json.depthOfEntries]
      omega

end

theorem keys_ofJsonEntries (entries : List (String × Json)) :
    (ofJsonEntries entries).map Prod.fst = entries.map Prod.fst := by
  induction entries with
  | nil => rfl
  | cons entry rest inductionHypothesis =>
      rw [ofJsonEntries, List.map_cons, List.map_cons, inductionHypothesis]

mutual

theorem ordered_ofJson :
    ∀ (value : Json) {room : Nat}, value.Readable room →
      (ofJson value).Ordered room
  | .null, _, _ => trivial
  | .boolean _, _, _ => trivial
  | .number _, _, _ => trivial
  | .string _, _, _ => trivial
  | .list items, _, ⟨positive, readable⟩ =>
      ⟨positive, orderedItems_ofJsonItems items readable⟩
  | .object entries, _, ⟨positive, ascending, readable⟩ =>
      ⟨positive, ascending.of_keys (keys_ofJsonEntries entries),
        orderedEntries_ofJsonEntries entries readable⟩

theorem orderedItems_ofJsonItems :
    ∀ (items : List Json) {room : Nat}, Json.ReadableItems room items →
      OrderedItems room (ofJsonItems items)
  | [], _, _ => trivial
  | item :: rest, _, readable =>
      ⟨ordered_ofJson item readable.1,
        orderedItems_ofJsonItems rest readable.2⟩

theorem orderedEntries_ofJsonEntries :
    ∀ (entries : List (String × Json)) {room : Nat},
      Json.ReadableEntries room entries →
        OrderedEntries room (ofJsonEntries entries)
  | [], _, _ => trivial
  | (_, value) :: rest, _, readable =>
      ⟨ordered_ofJson value readable.1,
        orderedEntries_ofJsonEntries rest readable.2⟩

end

end Protobuf.Value

/-! ## Attributes -/

namespace AttributeValue

mutual

/-- Attributes are read alike from doubles. -/
theorem decodeAt_asDoubles :
    ∀ (wire : Json) (path : String) (room : Nat),
      decodeAt path room wire.asDoubles = decodeAt path room wire
  | _, _, 0 => by simp only [decodeAt]
  | .null, _, _ + 1 => rfl
  | .boolean _, _, _ + 1 => rfl
  | .number _, _, _ + 1 => rfl
  | .string _, _, _ + 1 => rfl
  | .list items, path, room + 1 => by
      simp only [Json.asDoubles, decodeAt,
        decodeItems_asDoubles items path 0 room]
  | .object entries, path, room + 1 => by
      simp only [Json.asDoubles, decodeAt,
        decodeEntries_asDoubles entries path room]

theorem decodeItems_asDoubles :
    ∀ (wires : List Json) (path : String) (index room : Nat),
      decodeItems path index room (Json.asDoublesItems wires) =
        decodeItems path index room wires
  | [], _, _, _ => rfl
  | wire :: rest, path, index, room => by
      simp only [Json.asDoublesItems, decodeItems,
        decodeAt_asDoubles wire (itemPath path index) room,
        decodeItems_asDoubles rest path (index + 1) room]

theorem decodeEntries_asDoubles :
    ∀ (wires : List (String × Json)) (path : String) (room : Nat),
      decodeEntries path room (Json.asDoublesEntries wires) =
        decodeEntries path room wires
  | [], _, _ => rfl
  | (key, wire) :: rest, path, room => by
      simp only [Json.asDoublesEntries, decodeEntries,
        decodeAt_asDoubles wire (keyPath path key) room,
        decodeEntries_asDoubles rest path room]

end

end AttributeValue

namespace Attributes

theorem decode_asDoubles (wires : KeyMap Json) :
    decode (wires.mapValues Json.asDoubles) = decode wires := by
  have sameList : ∀ entries : List (String × Json),
      decodeList (entries.map fun entry => (entry.1, entry.2.asDoubles)) =
        decodeList entries := by
    intro entries
    induction entries with
    | nil => rfl
    | cons entry rest inductionHypothesis =>
        obtain ⟨key, wire⟩ := entry
        simp only [List.map_cons, decodeList, inductionHypothesis,
          AttributeValue.decodeAt_asDoubles]
  simp only [decode, KeyMap.mapValues, sameList]

end Attributes

namespace Wire

/-- Whether the values of a map of attributes can travel in binary form: they
have no more levels than an attribute may have and can be read. -/
def Portable (map : KeyMap Json) : Prop :=
  ∀ entry ∈ map.entries,
    entry.2.depth ≤ deepestLevel ∧ Json.Readable deepestLevel entry.2

theorem portable_of_encode
    {attributes : Attributes} {map : KeyMap Json}
    (encoded : attributes.encode = .ok map) (ordered : attributes.Ordered) :
    Portable map := by
  intro wire member
  obtain ⟨entry, -, encodedEntry⟩ :=
    Attributes.exists_of_encodeList (Attributes.entries_of_encode encoded) wire
      member
  obtain ⟨value, decoded, -⟩ :=
    AttributeValue.decodeAt_of_encodeAt entry.2 entry.1 encodedEntry
  exact
    ⟨AttributeValue.depth_of_decodeAt decoded,
      Attributes.readable_of_encode encoded ordered wire member⟩

/-- Whether all numbers in a map of attributes are finite. -/
def OnlyFinite (map : KeyMap Json) : Prop :=
  ∀ entry ∈ map.entries, entry.2.onlyFinite = true

theorem Portable.onlyFinite
    {map : KeyMap Json} (portable : Portable map) : OnlyFinite map :=
  fun entry member => entry.2.onlyFinite_of_readable (portable entry member).2

/-- Attributes come back with doubles, and none is left out. -/
theorem attributesOfBinary_toBinary
    {map : KeyMap Json} (finite : OnlyFinite map) (lead : String) :
    attributesOfBinary lead (attributesToBinary map) =
      (map.mapValues Json.asDoubles, []) := by
  have sameList : ∀ entries : List (String × Json),
      (∀ entry ∈ entries, entry.2.onlyFinite = true) →
        attributeList lead
            (entries.map fun entry =>
              (entry.1, Protobuf.Value.ofJson entry.2)) =
          (entries.map fun entry => (entry.1, entry.2.asDoubles), []) := by
    intro entries onlyFinite
    induction entries with
    | nil => rfl
    | cons entry rest inductionHypothesis =>
        obtain ⟨key, value⟩ := entry
        rw [List.forall_mem_cons] at onlyFinite
        simp only [List.map_cons, attributeList,
          Protobuf.Value.toJson_ofJson value _ onlyFinite.1,
          inductionHypothesis onlyFinite.2, List.append_nil]
  have same := sameList map.entries finite
  simp only [attributesOfBinary, attributesToBinary, KeyMap.mapValues, same]
  exact congrArg (·, []) (KeyMap.ofList_entries (map.mapValues _))

theorem fitsMap_attributesToBinary
    {map : KeyMap Json} (portable : Portable map) {room : Nat}
    (enough : 3 * deepestLevel ≤ room) :
    Protobuf.FitsMap room (attributesToBinary map) := by
  intro entry member
  obtain ⟨original, isOriginal, rfl⟩ := List.mem_map.mp member
  obtain ⟨shallow, readable⟩ := portable original isOriginal
  have levels := Protobuf.Value.levels_ofJson original.2
  refine ⟨?_, by dsimp only; omega⟩
  exact Protobuf.Value.reappears _
    (Protobuf.Value.ordered_ofJson original.2 readable)

/-! ## Spans -/

theorem wordOf?_number
    {Word : Type} [Vocabulary Word] [Vocabulary.Lawful Word]
    (word : Option Word) :
    wordOf? (word.map Vocabulary.number) = .ok word := by
  cases word with
  | none => rfl
  | some word =>
      simp only [Option.map_some, wordOf?, Vocabulary.Lawful.ofNumber?_number]

theorem fitsWord_number
    {Word : Type} [Vocabulary Word] [Vocabulary.Lawful Word]
    {word : Option Word} {number : Int}
    (isNumber : word.map Vocabulary.number = some number) :
    Protobuf.FitsWord number := by
  obtain ⟨word, -, rfl⟩ := Option.map_eq_some_iff.mp isNumber
  exact Vocabulary.Lawful.number_inRange word

theorem map_mk_bytes (identifier : Option Identifier) :
    (identifier.map Identifier.bytes).map Identifier.mk = identifier := by
  cases identifier with
  | none => rfl
  | some identifier => rfl

/-- An event with the doubles of its attributes. -/
def Event.asDoubles (event : Event) : Event :=
  { event with attributes := event.attributes.mapValues Json.asDoubles }

/-- A link with the doubles of its attributes. -/
def Link.asDoubles (link : Link) : Link :=
  { link with attributes := link.attributes.mapValues Json.asDoubles }

/-- A span with the doubles of all attributes. -/
def Span.asDoubles (span : Span) : Span :=
  { span with
    attributes := span.attributes.mapValues Json.asDoubles
    events := span.events.map Event.asDoubles
    links := span.links.map Link.asDoubles }

theorem Status.ofBinary?_toBinary (status : Option Status) :
    ofBinary? (status.map toBinary) = .ok status := by
  cases status with
  | none => rfl
  | some status =>
      simp only [Option.map_some, ofBinary?, ofBinary, toBinary, wordOf?_number,
        Except.map]

theorem Event.ofBinaryList_toBinary
    {events : List Event}
    (finite : ∀ event ∈ events, OnlyFinite event.attributes) (index : Nat) :
    ofBinaryList index (events.map toBinary) = (events.map asDoubles, []) := by
  induction events generalizing index with
  | nil => rfl
  | cons event rest inductionHypothesis =>
      rw [List.forall_mem_cons] at finite
      simp only [List.map_cons, ofBinaryList, ofBinary, toBinary,
        attributesOfBinary_toBinary finite.1,
        inductionHypothesis finite.2, List.append_nil]
      rfl

theorem Link.ofBinaryList_toBinary
    {links : List Link}
    (finite : ∀ link ∈ links, OnlyFinite link.attributes) (index : Nat) :
    ofBinaryList index (links.map toBinary) = (links.map asDoubles, []) := by
  induction links generalizing index with
  | nil => rfl
  | cons link rest inductionHypothesis =>
      rw [List.forall_mem_cons] at finite
      simp only [List.map_cons, ofBinaryList, ofBinary, toBinary,
        attributesOfBinary_toBinary finite.1, map_mk_bytes,
        inductionHypothesis finite.2, List.append_nil]
      rfl

namespace Span

/-- Whether the JSON form can carry a span: its numbers are finite, and none was
left out of it. -/
structure Carried (span : Span) : Prop where
  complete : span.notFinite = []
  finite : ∀ map ∈ span.attributeMaps, OnlyFinite map

/-- What is read from JSON is carried by it. -/
theorem carried_of_read
    {room : Nat} {document : Json.Document} {span : Span}
    (read : form.read room document = .ok span) : span.Carried where
  complete := by
    cases room with
    | zero => cases read
    | succ less =>
        have keeps : ∀ field ∈ form.fields, field.Keeps less
            fun span => span.notFinite = [] := by
          simp only [form, List.forall_mem_cons]
          refine ⟨?_, ?_, ?_, ?_, ?_, ?_, ?_, ?_, ?_, ?_, ?_, ?_, ?_, ?_, ?_,
            ?_, List.forall_mem_nil _⟩
          all_goals exact Json.RecordField.keeps_of_unused fun _ _ => id
        exact Json.RecordForm.holds_of_read keeps rfl read
  finite map member entry inMap := by
    have readable := (readable_of_read read).attributeMaps map member
    exact entry.2.onlyFinite_of_readable (readable entry inMap)

/-- Whether a span can travel in binary form: nothing was left out of it, and
all its attributes can. -/
structure Portable (span : Span) : Prop where
  complete : span.notFinite = []
  attributes : ∀ map ∈ span.attributeMaps, Wire.Portable map

variable {span : Span}

theorem Portable.ofEvents (portable : span.Portable) :
    ∀ event ∈ span.events, Wire.Portable event.attributes :=
  fun _ member => portable.attributes _ (attributes_mem_of_event member)

theorem Portable.ofLinks (portable : span.Portable) :
    ∀ link ∈ span.links, Wire.Portable link.attributes :=
  fun _ member => portable.attributes _ (attributes_mem_of_link member)

theorem portable_of_ofSpan
    {kept : TraceArchive.Span} (written : ofSpan kept = .ok span)
    (proper : kept.Proper) : span.Portable where
  complete := complete_of_ofSpan written
  attributes map member := by
    obtain ⟨attributes, isKept, encoded⟩ :=
      encode_of_mem_attributeMaps written member
    exact portable_of_encode encoded (proper.ordered attributes isKept)

theorem Portable.carried (portable : span.Portable) : span.Carried where
  complete := portable.complete
  finite map member := (portable.attributes map member).onlyFinite

/-- A span comes back with doubles, and nothing is left out of it. -/
theorem ofBinary_toBinary (carried : span.Carried) :
    ofBinary span.toBinary = .ok span.asDoubles := by
  have ofEvents : ∀ event ∈ span.events, OnlyFinite event.attributes :=
    fun _ member => carried.finite _ (attributes_mem_of_event member)
  have ofLinks : ∀ link ∈ span.links, OnlyFinite link.attributes :=
    fun _ member => carried.finite _ (attributes_mem_of_link member)
  have complete := carried.complete
  simp only [ofBinary, toBinary,
    attributesOfBinary_toBinary (carried.finite _ List.mem_cons_self),
    Event.ofBinaryList_toBinary ofEvents, Link.ofBinaryList_toBinary ofLinks,
    wordOf?_number, Status.ofBinary?_toBinary, map_mk_bytes, List.append_nil,
    asDoubles]
  rw [complete]

theorem ofBinaryList_toBinary
    {spans : List Span} (portable : ∀ span ∈ spans, span.Portable) :
    ofBinaryList (spans.map toBinary) = .ok (spans.map asDoubles) := by
  induction spans with
  | nil => rfl
  | cons span rest inductionHypothesis =>
      rw [List.forall_mem_cons] at portable
      simp only [List.map_cons, ofBinaryList,
        ofBinary_toBinary portable.1.carried, inductionHypothesis portable.2]

/-- There is room for the attributes of a span in a trace. -/
theorem fits_toBinary (portable : span.Portable) :
    span.toBinary.Fits 97 where
  kind _ := fitsWord_number
  status := by
    intro status isStatus code isCode
    obtain ⟨original, -, rfl⟩ := Option.map_eq_some_iff.mp isStatus
    exact fitsWord_number isCode
  attributes :=
    fitsMap_attributesToBinary (portable.attributes _ List.mem_cons_self)
      (by decide)
  events := by
    intro event member
    obtain ⟨original, isOriginal, rfl⟩ := List.mem_map.mp member
    exact fitsMap_attributesToBinary (portable.ofEvents original isOriginal)
      (by decide)
  links := by
    intro link member
    obtain ⟨original, isOriginal, rfl⟩ := List.mem_map.mp member
    exact fitsMap_attributesToBinary (portable.ofLinks original isOriginal)
      (by decide)

end Span

/-! ## Information about a trace -/

theorem Location.ofBinary?_toBinary (location : Option Location) :
    ofBinary? (location.map toBinary) = .ok location := by
  cases location with
  | none => rfl
  | some location =>
      simp only [Option.map_some, ofBinary?, ofBinary, toBinary, wordOf?_number,
        Except.map]

/-- An instant comes back unless it is in a leap second. -/
theorem instantOfBinary?_toBinary (instant : Instant) :
    instantOfBinary? (some (instantToBinary instant)) =
      if instant.nanos < nanosPerSecond then .ok (some instant)
      else .error .timestampOutOfRange := by
  obtain ⟨seconds, nanos, valid⟩ := instant
  have inSecond :
      (0 ≤ (nanos : Int) ∧ (nanos : Int) < nanosPerSecond) ↔
        nanos < nanosPerSecond := by
    omega
  have parts :
      Instant.ofParts? seconds nanos = some ⟨seconds, nanos, valid⟩ :=
    dif_pos valid
  simp only [instantOfBinary?, instantToBinary, inSecond, Int.toNat_natCast,
    parts]

theorem bmod_of_small
    {seconds : UInt64} (small : seconds.toNat < UInt64.size / 2) :
    Int.bmod seconds.toNat UInt64.size = seconds.toNat := by
  apply Int.bmod_eq_of_le
  · omega
  · omega

theorem bmod_of_large
    {seconds : UInt64} (large : UInt64.size / 2 ≤ seconds.toNat) :
    Int.bmod seconds.toNat UInt64.size < 0 := by
  have below := seconds.toNat_lt
  have isSize : UInt64.size = 18446744073709551616 := rfl
  rw [Int.bmod_def]
  rw [isSize] at large ⊢
  split
  · omega
  · omega

theorem bmod_inRange (value : Int) :
    -(UInt64.size / 2 : Nat) ≤ Int.bmod value UInt64.size ∧
      Int.bmod value UInt64.size < (UInt64.size / 2 : Nat) := by
  have isSize : UInt64.size = 18446744073709551616 := rfl
  rw [Int.bmod_def, isSize]
  split
  · omega
  · omega

theorem durationOfBinary?_of_parts
    {time : Protobuf.SplitTime} {duration : Duration}
    (seconds : time.seconds = duration.seconds.toNat)
    (nanos : time.nanos = duration.nanos) :
    durationOfBinary? (some time) = .ok (some duration) := by
  have inRange :
      0 ≤ time.seconds ∧ 0 ≤ time.nanos ∧ time.nanos < nanosPerSecond := by
    have below := duration.nanos_lt
    omega
  have carried : duration.nanos / nanosPerSecond = 0 :=
    Nat.div_eq_of_lt duration.nanos_lt
  have parts :
      Duration.ofParts? duration.seconds.toNat duration.nanos =
        some duration := by
    simp only [Duration.ofParts?, carried, Nat.add_zero,
      if_pos duration.seconds.toNat_lt, UInt64.ofNat_toNat,
      Nat.mod_eq_of_lt duration.nanos_lt]
  simp only [durationOfBinary?, if_pos inRange]
  rw [seconds, nanos, Int.toNat_natCast, Int.toNat_natCast, parts]

theorem durationOfBinary?_of_neg
    {time : Protobuf.SplitTime} (negative : time.seconds < 0) :
    durationOfBinary? (some time) = .error .invalidDuration := by
  have outside :
      ¬ (0 ≤ time.seconds ∧ 0 ≤ time.nanos ∧ time.nanos < nanosPerSecond) := by
    omega
  rw [durationOfBinary?, if_neg outside]

/-- A duration comes back if the binary form has its seconds. -/
theorem durationOfBinary?_toBinary (duration : Duration) :
    durationOfBinary? (some (durationToBinary duration)) =
      if duration.seconds.toNat < UInt64.size / 2 then .ok (some duration)
      else .error .invalidDuration := by
  unfold durationToBinary
  split
  · rename_i small
    apply durationOfBinary?_of_parts
    · dsimp only
      exact bmod_of_small small
    · rfl
  · rename_i large
    apply durationOfBinary?_of_neg
    dsimp only
    exact bmod_of_large (Nat.not_lt.mp large)

theorem durationOfBinary?_map
    {duration : Option Duration}
    (inRange :
      ∀ held, duration = some held →
        held.seconds.toNat < UInt64.size / 2) :
    durationOfBinary? (duration.map durationToBinary) = .ok duration := by
  cases duration with
  | none => rfl
  | some held =>
      exact (durationOfBinary?_toBinary held).trans (if_pos (inRange held rfl))

theorem assessmentsToBinary_objects (assessments : List Assessment) :
    assessmentsToBinary (assessments.map .object) =
      assessments.map Protobuf.Value.ofJsonEntries := by
  induction assessments with
  | nil => rfl
  | cons assessment rest inductionHypothesis =>
      rw [List.map_cons, assessmentsToBinary, inductionHypothesis,
        List.map_cons]

theorem assessmentsOfBinary_ofJsonEntries
    {assessments : List Assessment} {room : Nat}
    (readable :
      ∀ assessment ∈ assessments, Json.Readable room (.object assessment))
    (index : Nat) :
    assessmentsOfBinary index
        (assessments.map Protobuf.Value.ofJsonEntries) =
      .ok ((assessments.map Json.asDoublesEntries).map .object) := by
  induction assessments generalizing index with
  | nil => rfl
  | cons assessment rest inductionHypothesis =>
      rw [List.forall_mem_cons] at readable
      have finite : Json.onlyFiniteEntries assessment = true :=
        Json.onlyFinite_of_readable (.object assessment) readable.1
      simp only [List.map_cons, assessmentsOfBinary,
        Protobuf.Value.toJsonEntries_ofJsonEntries assessment _ finite,
        inductionHypothesis readable.2]

theorem textOf_string (map : KeyMap String) :
    (map.mapValues Json.string).mapValues textOf = map := by
  apply KeyMap.ext
  simp only [KeyMap.mapValues, List.map_map]
  exact List.map_id _

end Wire

/-- What is known of a trace, with the doubles of its assessments. -/
def TraceInfo.asDoubles (info : TraceInfo) : TraceInfo :=
  { info with assessments := info.assessments.map Json.asDoublesEntries }

/-- Whether the binary form of what is known of a trace can be read: its request
was not made in a leap second, its duration is in the range of that form, and
there is room for its assessments. -/
structure TraceInfo.Portable (info : TraceInfo) : Prop where
  requestTime : info.requestTime.nanos < nanosPerSecond
  executionDuration :
    ∀ duration, info.executionDuration = some duration →
      duration.seconds.toNat < UInt64.size / 2
  assessments :
    ∀ assessment ∈ info.assessments,
      Protobuf.Value.levelsOfEntries
        (Protobuf.Value.ofJsonEntries assessment) ≤ 98

namespace Wire

namespace TraceInfo

/-- The message of binary information, from those of its parts. -/
theorem ofBinary_eq_ok_iff
    {binary : Protobuf.TraceInfo} {message : TraceInfo} :
    ofBinary binary = .ok message ↔
      Location.ofBinary? binary.location = .ok message.location ∧
        instantOfBinary? binary.requestTime = .ok message.requestTime ∧
        durationOfBinary? binary.executionDuration =
          .ok message.executionDuration ∧
        wordOf? binary.state = .ok message.state ∧
        assessmentsOfBinary 0 binary.assessments = .ok message.assessments ∧
        message =
          { message with
            traceId := binary.traceId
            clientRequestId := binary.clientRequestId
            request := binary.request
            response := binary.response
            metadata := binary.metadata.mapValues .string
            tags := binary.tags.mapValues .string } := by
  constructor
  · intro isMessage
    unfold ofBinary at isMessage
    split at isMessage
    · cases isMessage
    · rename_i location isLocation
      split at isMessage
      · cases isMessage
      · rename_i requestTime isRequestTime
        split at isMessage
        · cases isMessage
        · rename_i executionDuration isExecutionDuration
          split at isMessage
          · cases isMessage
          · rename_i state isState
            split at isMessage
            · cases isMessage
            · rename_i assessments areAssessments
              cases isMessage
              exact
                ⟨isLocation, isRequestTime, isExecutionDuration, isState,
                  areAssessments, rfl⟩
  · rintro ⟨location, requestTime, executionDuration, state, assessments,
      others⟩
    rw [others]
    simp only [ofBinary, location, requestTime, executionDuration, state,
      assessments]

variable {kept : TraceArchive.TraceInfo} {room : Nat}

/-- What is known of a trace comes back with doubles if its times have a binary
form. -/
theorem ofBinary_toBinary
    (readable :
      ∀ assessment ∈ kept.assessments,
        Json.Readable room (.object assessment))
    (requestTime : kept.requestTime.nanos < nanosPerSecond)
    (executionDuration :
      ∀ duration, kept.executionDuration = some duration →
        duration.seconds.toNat < UInt64.size / 2) :
    ofBinary (toBinary (ofInfo kept)) = .ok (ofInfo kept.asDoubles) := by
  have location := Location.ofBinary?_toBinary (ofInfo kept).location
  have isRequestTime :=
    (instantOfBinary?_toBinary kept.requestTime).trans (if_pos requestTime)
  have isDuration := durationOfBinary?_map executionDuration
  have state := wordOf?_number (some kept.state)
  have assessments := assessmentsOfBinary_ofJsonEntries readable 0
  rw [← assessmentsToBinary_objects] at assessments
  refine ofBinary_eq_ok_iff.mpr
    ⟨location, isRequestTime, isDuration, state, assessments, ?_⟩
  simp only [toBinary, ofInfo, textOf_string]
  rfl

/-- What is known of a trace comes back only if its times have a binary form. -/
theorem times_of_ofBinary
    {message : TraceInfo}
    (isMessage : ofBinary (toBinary (ofInfo kept)) = .ok message) :
    kept.requestTime.nanos < nanosPerSecond ∧
      ∀ duration, kept.executionDuration = some duration →
        duration.seconds.toNat < UInt64.size / 2 := by
  obtain ⟨-, isRequestTime, isDuration, -⟩ := ofBinary_eq_ok_iff.mp isMessage
  constructor
  · by_contra late
    have refused :=
      (instantOfBinary?_toBinary kept.requestTime).trans (if_neg late)
    cases refused.symm.trans isRequestTime
  · intro duration given
    by_contra long
    have refused :=
      (durationOfBinary?_toBinary duration).trans (if_neg long)
    have isDuration :
        durationOfBinary? (kept.executionDuration.map durationToBinary) =
          .ok message.executionDuration :=
      isDuration
    rw [given] at isDuration
    cases refused.symm.trans isDuration

theorem fits_instantToBinary (instant : Instant) :
    (instantToBinary instant).Fits := by
  obtain ⟨seconds, nanos, valid⟩ := instant
  obtain ⟨first, last, short, -⟩ := valid
  have least : -(UInt64.size / 2 : Nat) ≤ Instant.firstSecond := by decide
  have most : Instant.lastSecond < (UInt64.size / 2 : Nat) := by decide
  refine ⟨least.trans first, last.trans_lt most, ?_⟩
  simp only [instantToBinary, Protobuf.FitsWord, nanosPerSecond, UInt32.size]
    at short ⊢
  omega

theorem fits_durationToBinary (duration : Duration) :
    (durationToBinary duration).Fits := by
  obtain ⟨seconds, nanos, nanos_lt⟩ := duration
  obtain ⟨least, most⟩ := bmod_inRange seconds.toNat
  have short :
      -(UInt32.size / 2 : Nat) ≤ (nanos : Int) ∧
        (nanos : Int) < (UInt32.size / 2 : Nat) := by
    simp only [nanosPerSecond, UInt32.size] at nanos_lt ⊢
    omega
  unfold durationToBinary
  constructor
  · dsimp only
    exact least
  · dsimp only
    exact most
  · exact short

theorem fits_toBinary
    (readable :
      ∀ assessment ∈ kept.assessments,
        Json.Readable room (.object assessment)) :
    (toBinary (ofInfo kept)).Fits where
  location := by
    rintro _ ⟨⟩ kind isKind
    exact fitsWord_number isKind
  requestTime := by
    rintro _ ⟨⟩
    exact fits_instantToBinary kept.requestTime
  executionDuration := by
    intro time isTime
    obtain ⟨duration, -, rfl⟩ := Option.map_eq_some_iff.mp isTime
    exact fits_durationToBinary duration
  state := by
    rintro _ ⟨⟩
    exact Vocabulary.Lawful.number_inRange kept.state
  assessments := by
    intro binary member
    have member :
        binary ∈ assessmentsToBinary (kept.assessments.map .object) :=
      member
    rw [assessmentsToBinary_objects] at member
    obtain ⟨assessment, isKept, rfl⟩ := List.mem_map.mp member
    obtain ⟨-, ordered⟩ :=
      Protobuf.Value.ordered_ofJson (.object assessment)
        (readable assessment isKept)
    exact ⟨_, ordered⟩

end TraceInfo

/-! ## Bodies -/

namespace Format

/-- Messages about spans are read after whatever is read without them. -/
theorem decode_encodeMessage_spans
    {info : Option TraceInfo} {messages : List Span}
    (portable : ∀ message ∈ messages, message.Portable)
    (short :
      (protobuf.encodeMessage { info, spans := some messages }).length <
        UInt64.size) :
    protobuf.decode
        (protobuf.encodeMessage { info, spans := some messages }) =
      (protobuf.decode (protobuf.encodeMessage { info })).map
        fun before =>
          { before with spans := some (messages.map Span.asDoubles) } := by
  have fits : ∀ span ∈ messages.map Span.toBinary, span.Fits 97 := by
    rw [List.forall_mem_map]
    exact fun message member => Span.fits_toBinary (portable message member)
  have shortInfo :
      (protobuf.encodeMessage { info }).length < UInt64.size :=
    Nat.lt_of_le_of_lt (Protobuf.Trace.length_encode_info_le _ _) short
  have whole :
      Protobuf.Trace.decode?
          (protobuf.encodeMessage { info, spans := some messages }) =
        (Protobuf.Trace.decode? (protobuf.encodeMessage { info })).map
          fun before =>
            { before with spans := some (messages.map Span.toBinary) } :=
    Protobuf.Trace.decode?_encode_spans fits short
  simp only [decode, whole]
  cases decoded :
      Protobuf.Trace.decode? (protobuf.encodeMessage { info }) with
  | none => rfl
  | some binary =>
      have isNone := Protobuf.Trace.spans_of_decode? shortInfo decoded
      simp only [Option.map_some, Trace.ofBinary, isNone, Trace.spansOfBinary?,
        Span.ofBinaryList_toBinary portable, Except.map]
      cases TraceInfo.ofBinary? binary.info with
      | error error => rfl
      | ok held => rfl

variable {kept : TraceArchive.TraceInfo} {room : Nat}

theorem decode?_encodeMessage_info
    (readable :
      ∀ assessment ∈ kept.assessments,
        Json.Readable room (.object assessment))
    (short :
      (protobuf.encodeMessage
        { info := some (TraceInfo.ofInfo kept) }).length < UInt64.size) :
    Protobuf.Trace.decode?
        (protobuf.encodeMessage { info := some (TraceInfo.ofInfo kept) }) =
      if ∀ assessment ∈ kept.assessments,
          Protobuf.Value.levelsOfEntries
            (Protobuf.Value.ofJsonEntries assessment) ≤ 98 then
        some { info := some (TraceInfo.toBinary (TraceInfo.ofInfo kept)) }
      else none := by
  have read :=
    Protobuf.Trace.decode?_encode_info (TraceInfo.fits_toBinary readable)
      short
  have isBinary :
      (TraceInfo.toBinary (TraceInfo.ofInfo kept)).assessments =
        kept.assessments.map Protobuf.Value.ofJsonEntries :=
    assessmentsToBinary_objects kept.assessments
  simp only [isBinary, List.forall_mem_map] at read
  exact read

/-- The binary body of what is known of a trace is read as the same with
doubles if it can be read. -/
theorem decode_encodeMessage_info
    (readable :
      ∀ assessment ∈ kept.assessments,
        Json.Readable room (.object assessment))
    (short :
      (protobuf.encodeMessage
        { info := some (TraceInfo.ofInfo kept) }).length < UInt64.size)
    (portable : kept.Portable) :
    protobuf.decode
        (protobuf.encodeMessage { info := some (TraceInfo.ofInfo kept) }) =
      .ok { info := some (TraceInfo.ofInfo kept.asDoubles) } := by
  have read := decode?_encodeMessage_info readable short
  rw [if_pos portable.assessments] at read
  have isInfo :=
    TraceInfo.ofBinary_toBinary readable portable.requestTime
      portable.executionDuration
  simp only [decode, read, Trace.ofBinary, TraceInfo.ofBinary?, isInfo,
    Except.map, Trace.spansOfBinary?]

/-- The binary body of what is known of a trace is read only if that is
portable. -/
theorem portable_of_decode
    (readable :
      ∀ assessment ∈ kept.assessments,
        Json.Readable room (.object assessment))
    (short :
      (protobuf.encodeMessage
        { info := some (TraceInfo.ofInfo kept) }).length < UInt64.size)
    {message : Trace}
    (decoded :
      protobuf.decode
          (protobuf.encodeMessage { info := some (TraceInfo.ofInfo kept) }) =
        .ok message) :
    kept.Portable := by
  have read := decode?_encodeMessage_info readable short
  simp only [decode, read] at decoded
  split at decoded
  · cases decoded
  · rename_i binary isBinary
    split at isBinary
    · rename_i shallow
      cases isBinary
      simp only [Trace.ofBinary, TraceInfo.ofBinary?] at decoded
      split at decoded
      · cases decoded
      · rename_i info isInfo
        obtain ⟨held, isMessage, -⟩ := exists_of_map_eq_ok isInfo
        obtain ⟨requestTime, executionDuration⟩ :=
          TraceInfo.times_of_ofBinary isMessage
        exact ⟨requestTime, executionDuration, shallow⟩
    · cases isBinary

end Format

end Wire

end TraceArchive
