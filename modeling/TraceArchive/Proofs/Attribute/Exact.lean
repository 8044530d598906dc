import TraceArchive.Proofs.Attribute.Levels
import TraceArchive.Proofs.Double.Whole
import TraceArchive.Proofs.Json.Readable

/-!
# Attribute values survive the wire

The wire form of a value is decoded to the same value, where both zeros count as
one number, and it can be read if the keys of the value are in order. The main
statements are `Attributes.decode_of_encode` and
`Attributes.readable_of_encode`.
-/

namespace TraceArchive

/-! ## Numbers -/

namespace Double

/-- The whole part is a magnitude with the sign of the number. -/
theorem wholePart_eq (number : Double) :
    number.wholePart =
      if number.negative then
        -((multiple number.rank / Nat.pow 2 leastExponent : Nat) : Int)
      else ((multiple number.rank / Nat.pow 2 leastExponent : Nat) : Int) :=
  rfl

theorem natAbs_wholePart (number : Double) :
    number.wholePart.natAbs =
      multiple number.rank / Nat.pow 2 leastExponent := by
  rw [wholePart_eq]
  generalize multiple number.rank / Nat.pow 2 leastExponent = magnitude
  split
  · exact (Int.natAbs_neg _).trans (Int.natAbs_natCast _)
  · exact Int.natAbs_natCast _

theorem natAbs_wholePart_mul
    {number : Double} (whole : number.isWhole = true) :
    number.wholePart.natAbs * Nat.pow 2 leastExponent =
      multiple number.rank := by
  rw [natAbs_wholePart]
  exact Nat.div_mul_cancel (Nat.dvd_of_mod_eq_zero (eq_of_beq whole))

theorem multiple_zero : multiple 0 = 0 :=
  rfl

theorem nearestRank_zero : nearestRank 0 1 = 0 := by
  decide +kernel

/-- A whole number is the nearest double of its whole part. -/
theorem nearestRank_wholePart
    {number : Double} (whole : number.isWhole = true) :
    nearestRank number.wholePart.natAbs 1 = number.rank := by
  have isMultiple := natAbs_wholePart_mul whole
  by_cases nothing : number.rank = 0
  · have isZero : number.wholePart.natAbs = 0 := by
      rw [natAbs_wholePart, nothing, multiple_zero, Nat.zero_div]
    rw [isZero, nothing]
    exact nearestRank_zero
  · exact
      nearestRank_of_multiple (Nat.pos_of_ne_zero nothing) isMultiple.symm

theorem wholePart_neg_iff
    {number : Double} (whole : number.isWhole = true)
    (nonZero : 0 < number.rank) :
    number.wholePart < 0 ↔ number.negative = true := by
  have notZero : 0 < multiple number.rank / Nat.pow 2 leastExponent := by
    have positive := multiple_pos nonZero
    rw [← natAbs_wholePart_mul whole, natAbs_wholePart] at positive
    exact Nat.pos_of_mul_pos_right positive
  rw [wholePart_eq]
  generalize multiple number.rank / Nat.pow 2 leastExponent = magnitude at *
  cases number.negative
  · simp only [Bool.false_eq_true, if_false, iff_false]
    omega
  · simp only [if_true, iff_true]
    omega

theorem sameNumber_of_rank
    {left right : Double} (finite : right.isFinite = true)
    (sameRank : left.rank = right.rank)
    (sameSign : 0 < right.rank → left.negative = right.negative) :
    left.isFinite = true ∧ left.sameNumber right = true := by
  have below : right.rank < infinityRank := of_decide_eq_true finite
  have isNumber : right.isNotANumber = false :=
    decide_eq_false (Nat.not_lt_of_lt below)
  have isLeft : left.isNotANumber = false := by
    rw [isNotANumber, sameRank]
    exact isNumber
  refine ⟨by rw [isFinite, sameRank]; exact finite, ?_⟩
  rw [sameNumber, isLeft, isNumber, sameRank]
  by_cases nothing : right.rank = 0
  · simp [nothing]
  · simp [sameSign (Nat.pos_of_ne_zero nothing)]

/-- The double of the whole part of a whole number is that number. -/
theorem ofInt_wholePart
    {number : Double} (finite : number.isFinite = true)
    (whole : number.isWhole = true) :
    (ofInt number.wholePart).isFinite = true ∧
      (ofInt number.wholePart).sameNumber number = true := by
  have below : number.rank < infinityRank := of_decide_eq_true finite
  have isDouble :
      ofInt number.wholePart =
        ⟨decide (number.wholePart < 0), number.rank, number.rank_lt⟩ := by
    rw [ofInt, nearestRank_wholePart whole, ofRank, dif_pos below]
  rw [isDouble]
  refine sameNumber_of_rank finite rfl fun nonZero => ?_
  have sameSign := wholePart_neg_iff whole nonZero
  cases isNegative : number.negative
  · rw [isNegative] at sameSign
    simpa using sameSign
  · rw [isNegative] at sameSign
    simpa using sameSign

theorem sameNumber_self
    {number : Double} (finite : number.isFinite = true) :
    number.sameNumber number = true :=
  (sameNumber_of_rank finite rfl fun _ => rfl).2

end Double

/-! ## Values -/

namespace AttributeValue

mutual

/-- Whether two values differ in nothing but the sign of a zero. -/
def same : AttributeValue → AttributeValue → Bool
  | .null, .null => true
  | .boolean left, .boolean right => left == right
  | .number left, .number right => left.sameNumber right
  | .string left, .string right => left == right
  | .list left, .list right => sameItems left right
  | .map left, .map right => sameEntries left right
  | _, _ => false

/-- Whether the values of two lists are the same in their order. -/
def sameItems : List AttributeValue → List AttributeValue → Bool
  | [], [] => true
  | left :: lefts, right :: rights => same left right && sameItems lefts rights
  | _, _ => false

/-- Whether two lists of entries have the same keys and values in their
order. -/
def sameEntries :
    List (String × AttributeValue) → List (String × AttributeValue) → Bool
  | [], [] => true
  | (leftKey, left) :: lefts, (rightKey, right) :: rights =>
      leftKey == rightKey && same left right && sameEntries lefts rights
  | _, _ => false

end

mutual

/-- Whether the keys of every map in a value are in ascending order. -/
def Ordered : AttributeValue → Prop
  | .list items => OrderedItems items
  | .map entries => Entries.Ascending entries ∧ OrderedEntries entries
  | _ => True

/-- Whether the keys of every map in values are in ascending order. -/
def OrderedItems : List AttributeValue → Prop
  | [] => True
  | item :: rest => Ordered item ∧ OrderedItems rest

/-- Whether the keys of every map in the values of entries are in ascending
order. -/
def OrderedEntries : List (String × AttributeValue) → Prop
  | [] => True
  | (_, value) :: rest => Ordered value ∧ OrderedEntries rest

end

/-! ## Decoding what was encoded -/

theorem toDouble_of_encodeNumber?
    {value : Double} {wire : Json.Number}
    (encoded : encodeNumber? value = some wire) :
    wire.isFinite = true ∧ wire.toDouble.isFinite = true ∧
      wire.toDouble.sameNumber value = true := by
  unfold encodeNumber? at encoded
  split at encoded
  · rename_i finite
    dsimp only at encoded
    split at encoded
    · rename_i exact
      cases encoded
      exact ⟨rfl, Double.ofInt_wholePart finite exact.1⟩
    · cases encoded
      exact ⟨finite, finite, Double.sameNumber_self finite⟩
  · cases encoded

mutual

theorem decodeAt_of_encodeAt :
    ∀ (value : AttributeValue) {path : String} (other : String) {room : Nat}
      {wire : Json}, encodeAt path room value = .ok wire →
        ∃ decoded, decodeAt other room wire = .ok decoded ∧
          same decoded value = true
  | _, _, _, 0, _, encoded => by
      simp only [encodeAt] at encoded
      cases encoded
  | .null, _, _, _ + 1, _, encoded => by
      cases encoded
      exact ⟨_, rfl, rfl⟩
  | .boolean _, _, _, _ + 1, _, encoded => by
      cases encoded
      exact ⟨_, rfl, by simp [same]⟩
  | .number value, _, _, _ + 1, _, encoded => by
      simp only [encodeAt] at encoded
      split at encoded
      · cases encoded
      · rename_i wire isWire
        cases encoded
        obtain ⟨-, finite, isSame⟩ := toDouble_of_encodeNumber? isWire
        exact ⟨.number wire.toDouble, by simp only [decodeAt, if_pos finite],
          isSame⟩
  | .string _, _, _, _ + 1, _, encoded => by
      cases encoded
      exact ⟨_, rfl, by simp [same]⟩
  | .list items, _, other, room + 1, _, encoded => by
      simp only [encodeAt] at encoded
      split at encoded
      · cases encoded
      · rename_i wires encodedItems
        cases encoded
        obtain ⟨values, decoded, isSame⟩ :=
          decodeItems_of_encodeItems items other 0 encodedItems
        exact ⟨.list values, by simp only [decodeAt, decoded], isSame⟩
  | .map entries, _, other, room + 1, _, encoded => by
      simp only [encodeAt] at encoded
      split at encoded
      · cases encoded
      · rename_i wires encodedEntries
        cases encoded
        obtain ⟨values, decoded, isSame⟩ :=
          decodeEntries_of_encodeEntries entries other encodedEntries
        exact ⟨.map values, by simp only [decodeAt, decoded], isSame⟩

theorem decodeItems_of_encodeItems :
    ∀ (items : List AttributeValue) {path : String} (other : String)
      {index : Nat} (otherIndex : Nat) {room : Nat} {wires : List Json},
      encodeItems path index room items = .ok wires →
        ∃ decoded, decodeItems other otherIndex room wires = .ok decoded ∧
          sameItems decoded items = true
  | [], _, _, _, _, _, _, encoded => by
      cases encoded
      exact ⟨[], rfl, rfl⟩
  | item :: rest, _, other, _, otherIndex, room, _, encoded => by
      simp only [encodeItems] at encoded
      split at encoded
      · cases encoded
      · rename_i wire encodedFirst
        split at encoded
        · cases encoded
        · rename_i wires encodedRest
          cases encoded
          obtain ⟨first, decodedFirst, sameFirst⟩ :=
            decodeAt_of_encodeAt item (itemPath other otherIndex) encodedFirst
          obtain ⟨others, decodedRest, sameRest⟩ :=
            decodeItems_of_encodeItems rest other (otherIndex + 1) encodedRest
          exact ⟨first :: others,
            by simp only [decodeItems, decodedFirst, decodedRest],
            by simp only [sameItems, sameFirst, sameRest, Bool.and_self]⟩

theorem decodeEntries_of_encodeEntries :
    ∀ (entries : List (String × AttributeValue)) {path : String}
      (other : String) {room : Nat} {wires : List (String × Json)},
      encodeEntries path room entries = .ok wires →
        ∃ decoded, decodeEntries other room wires = .ok decoded ∧
          sameEntries decoded entries = true
  | [], _, _, _, _, encoded => by
      cases encoded
      exact ⟨[], rfl, rfl⟩
  | (key, value) :: rest, _, other, room, _, encoded => by
      simp only [encodeEntries] at encoded
      split at encoded
      · cases encoded
      · rename_i wire encodedFirst
        split at encoded
        · cases encoded
        · rename_i wires encodedRest
          cases encoded
          obtain ⟨first, decodedFirst, sameFirst⟩ :=
            decodeAt_of_encodeAt value (keyPath other key) encodedFirst
          obtain ⟨others, decodedRest, sameRest⟩ :=
            decodeEntries_of_encodeEntries rest other encodedRest
          exact ⟨(key, first) :: others,
            by simp only [decodeEntries, decodedFirst, decodedRest],
            by simp only [sameEntries, beq_self_eq_true, sameFirst, sameRest,
              Bool.and_self]⟩

end

/-! ## Reading what was encoded -/

theorem keys_of_encodeEntries
    {path : String} {room : Nat} {entries : List (String × AttributeValue)}
    {wires : List (String × Json)}
    (encoded : encodeEntries path room entries = .ok wires) :
    wires.map Prod.fst = entries.map Prod.fst := by
  induction entries generalizing wires with
  | nil =>
      cases encoded
      rfl
  | cons entry rest inductionHypothesis =>
      obtain ⟨key, value⟩ := entry
      simp only [encodeEntries] at encoded
      split at encoded
      · cases encoded
      · split at encoded
        · cases encoded
        · rename_i others encodedRest
          cases encoded
          rw [List.map_cons, List.map_cons, inductionHypothesis encodedRest]

mutual

theorem readable_of_encodeAt :
    ∀ (value : AttributeValue) {path : String} {room : Nat} {wire : Json},
      encodeAt path room value = .ok wire → Ordered value →
        Json.Readable room wire
  | _, _, 0, _, encoded, _ => by
      simp only [encodeAt] at encoded
      cases encoded
  | .null, _, _ + 1, _, encoded, _ => by
      cases encoded
      trivial
  | .boolean _, _, _ + 1, _, encoded, _ => by
      cases encoded
      trivial
  | .number value, _, _ + 1, _, encoded, _ => by
      simp only [encodeAt] at encoded
      split at encoded
      · cases encoded
      · rename_i wire isWire
        cases encoded
        exact (toDouble_of_encodeNumber? isWire).1
  | .string _, _, _ + 1, _, encoded, _ => by
      cases encoded
      trivial
  | .list items, _, room + 1, _, encoded, ordered => by
      simp only [encodeAt] at encoded
      split at encoded
      · cases encoded
      · rename_i wires encodedItems
        cases encoded
        exact ⟨Nat.succ_pos room,
          readableItems_of_encodeItems items encodedItems ordered⟩
  | .map entries, _, room + 1, _, encoded, ordered => by
      simp only [encodeAt] at encoded
      split at encoded
      · cases encoded
      · rename_i wires encodedEntries
        cases encoded
        have ascending : Entries.Ascending wires :=
          ordered.1.of_keys (keys_of_encodeEntries encodedEntries)
        exact ⟨Nat.succ_pos room, ascending,
          readableEntries_of_encodeEntries entries encodedEntries ordered.2⟩

theorem readableItems_of_encodeItems :
    ∀ (items : List AttributeValue) {path : String} {index room : Nat}
      {wires : List Json}, encodeItems path index room items = .ok wires →
        OrderedItems items → Json.ReadableItems room wires
  | [], _, _, _, _, encoded, _ => by
      cases encoded
      trivial
  | item :: rest, _, _, _, _, encoded, ordered => by
      simp only [encodeItems] at encoded
      split at encoded
      · cases encoded
      · rename_i wire encodedFirst
        split at encoded
        · cases encoded
        · rename_i wires encodedRest
          cases encoded
          exact ⟨readable_of_encodeAt item encodedFirst ordered.1,
            readableItems_of_encodeItems rest encodedRest ordered.2⟩

theorem readableEntries_of_encodeEntries :
    ∀ (entries : List (String × AttributeValue)) {path : String} {room : Nat}
      {wires : List (String × Json)},
      encodeEntries path room entries = .ok wires → OrderedEntries entries →
        Json.ReadableEntries room wires
  | [], _, _, _, encoded, _ => by
      cases encoded
      trivial
  | (key, value) :: rest, _, _, _, encoded, ordered => by
      simp only [encodeEntries] at encoded
      split at encoded
      · cases encoded
      · rename_i wire encodedFirst
        split at encoded
        · cases encoded
        · rename_i wires encodedRest
          cases encoded
          exact ⟨readable_of_encodeAt value encodedFirst ordered.1,
            readableEntries_of_encodeEntries rest encodedRest ordered.2⟩

end

/-! ## Decoding what can be read -/

theorem keys_of_decodeEntries
    {path : String} {room : Nat} {wires : List (String × Json)}
    {entries : List (String × AttributeValue)}
    (decoded : decodeEntries path room wires = .ok entries) :
    entries.map Prod.fst = wires.map Prod.fst := by
  induction wires generalizing entries with
  | nil =>
      cases decoded
      rfl
  | cons wire rest inductionHypothesis =>
      obtain ⟨key, value⟩ := wire
      simp only [decodeEntries] at decoded
      split at decoded
      · cases decoded
      · split at decoded
        · cases decoded
        · rename_i others decodedRest
          cases decoded
          rw [List.map_cons, List.map_cons, inductionHypothesis decodedRest]

mutual

theorem ordered_of_decodeAt :
    ∀ (wire : Json) {path : String} {room deep : Nat}
      {value : AttributeValue}, decodeAt path room wire = .ok value →
        Json.Readable deep wire → Ordered value
  | _, _, 0, _, _, decoded, _ => by
      simp only [decodeAt] at decoded
      cases decoded
  | .null, _, _ + 1, _, _, decoded, _ => by
      cases decoded
      trivial
  | .boolean _, _, _ + 1, _, _, decoded, _ => by
      cases decoded
      trivial
  | .number wire, _, _ + 1, _, _, decoded, _ => by
      simp only [decodeAt] at decoded
      split at decoded
      · cases decoded
        trivial
      · cases decoded
  | .string _, _, _ + 1, _, _, decoded, _ => by
      cases decoded
      trivial
  | .list items, _, _ + 1, _, _, decoded, readable => by
      simp only [decodeAt] at decoded
      split at decoded
      · cases decoded
      · rename_i values decodedItems
        cases decoded
        exact ordered_of_decodeItems items decodedItems readable.2
  | .object entries, _, _ + 1, _, _, decoded, readable => by
      simp only [decodeAt] at decoded
      split at decoded
      · cases decoded
      · rename_i values decodedEntries
        cases decoded
        exact ⟨readable.2.1.of_keys (keys_of_decodeEntries decodedEntries),
          ordered_of_decodeEntries entries decodedEntries readable.2.2⟩

theorem ordered_of_decodeItems :
    ∀ (wires : List Json) {path : String} {index room deep : Nat}
      {values : List AttributeValue},
      decodeItems path index room wires = .ok values →
        Json.ReadableItems deep wires → OrderedItems values
  | [], _, _, _, _, _, decoded, _ => by
      cases decoded
      trivial
  | wire :: rest, _, _, _, _, _, decoded, readable => by
      simp only [decodeItems] at decoded
      split at decoded
      · cases decoded
      · rename_i value decodedFirst
        split at decoded
        · cases decoded
        · rename_i others decodedRest
          cases decoded
          exact ⟨ordered_of_decodeAt wire decodedFirst readable.1,
            ordered_of_decodeItems rest decodedRest readable.2⟩

theorem ordered_of_decodeEntries :
    ∀ (wires : List (String × Json)) {path : String} {room deep : Nat}
      {values : List (String × AttributeValue)},
      decodeEntries path room wires = .ok values →
        Json.ReadableEntries deep wires → OrderedEntries values
  | [], _, _, _, _, decoded, _ => by
      cases decoded
      trivial
  | (key, wire) :: rest, _, _, _, _, decoded, readable => by
      simp only [decodeEntries] at decoded
      split at decoded
      · cases decoded
      · rename_i value decodedFirst
        split at decoded
        · cases decoded
        · rename_i others decodedRest
          cases decoded
          exact ⟨ordered_of_decodeAt wire decodedFirst readable.1,
            ordered_of_decodeEntries rest decodedRest readable.2⟩

end

end AttributeValue

/-! ## Maps of attributes -/

namespace Attributes

/-- Whether two maps of attributes differ in nothing but signs of zeros. -/
def same (left right : Attributes) : Bool :=
  AttributeValue.sameEntries left.entries right.entries

theorem length_eq_of_sameEntries
    {lefts rights : List (String × AttributeValue)}
    (areSame : AttributeValue.sameEntries lefts rights = true) :
    lefts.length = rights.length := by
  induction lefts generalizing rights with
  | nil =>
      cases rights with
      | nil => rfl
      | cons right rights => cases areSame
  | cons left lefts inductionHypothesis =>
      cases rights with
      | nil => cases areSame
      | cons right rights =>
          simp only [AttributeValue.sameEntries, Bool.and_eq_true] at areSame
          rw [List.length_cons, List.length_cons,
            inductionHypothesis areSame.2]

theorem size_eq_of_same
    {left right : Attributes} (areSame : left.same right = true) :
    left.size = right.size :=
  length_eq_of_sameEntries areSame

/-- Whether the keys of every map in the attributes are in ascending order. -/
def Ordered (attributes : Attributes) : Prop :=
  ∀ entry ∈ attributes.entries, entry.2.Ordered

variable {entries : List (String × AttributeValue)}
  {wires : List (String × Json)}

theorem keys_of_encodeList (encoded : encodeList entries = .ok wires) :
    wires.map Prod.fst = entries.map Prod.fst := by
  induction entries generalizing wires with
  | nil =>
      cases encoded
      rfl
  | cons entry rest inductionHypothesis =>
      obtain ⟨key, value⟩ := entry
      simp only [encodeList] at encoded
      split at encoded
      · cases encoded
      · split at encoded
        · cases encoded
        · rename_i others encodedRest
          cases encoded
          rw [List.map_cons, List.map_cons, inductionHypothesis encodedRest]

theorem decodeList_of_encodeList (encoded : encodeList entries = .ok wires) :
    ∃ values, decodeList wires = (values, []) ∧
      values.map Prod.fst = entries.map Prod.fst ∧
        AttributeValue.sameEntries values entries = true := by
  induction entries generalizing wires with
  | nil =>
      cases encoded
      exact ⟨[], rfl, rfl, rfl⟩
  | cons entry rest inductionHypothesis =>
      obtain ⟨key, value⟩ := entry
      simp only [encodeList] at encoded
      split at encoded
      · cases encoded
      · rename_i wire encodedFirst
        split at encoded
        · cases encoded
        · rename_i others encodedRest
          cases encoded
          obtain ⟨first, decodedFirst, sameFirst⟩ :=
            AttributeValue.decodeAt_of_encodeAt value key encodedFirst
          obtain ⟨values, decodedRest, sameKeys, sameRest⟩ :=
            inductionHypothesis encodedRest
          refine ⟨(key, first) :: values, ?_, ?_, ?_⟩
          · simp only [decodeList, decodedRest, decodedFirst]
          · rw [List.map_cons, List.map_cons, sameKeys]
          · simp only [AttributeValue.sameEntries, beq_self_eq_true, sameFirst,
              sameRest, Bool.and_self]

theorem exists_of_encodeList (encoded : encodeList entries = .ok wires) :
    ∀ wire ∈ wires, ∃ entry ∈ entries,
      AttributeValue.encodeAt entry.1 deepestLevel entry.2 = .ok wire.2 := by
  induction entries generalizing wires with
  | nil =>
      cases encoded
      exact List.forall_mem_nil _
  | cons entry rest inductionHypothesis =>
      obtain ⟨key, value⟩ := entry
      simp only [encodeList] at encoded
      split at encoded
      · cases encoded
      · rename_i wire encodedFirst
        split at encoded
        · cases encoded
        · rename_i others encodedRest
          cases encoded
          refine List.forall_mem_cons.mpr
            ⟨⟨(key, value), List.mem_cons_self, encodedFirst⟩, ?_⟩
          intro other member
          obtain ⟨entry, isEntry, encodedEntry⟩ :=
            inductionHypothesis encodedRest other member
          exact ⟨entry, List.mem_cons_of_mem _ isEntry, encodedEntry⟩

variable {attributes : Attributes} {map : KeyMap Json}

theorem entries_of_encode (encoded : attributes.encode = .ok map) :
    encodeList attributes.entries = .ok map.entries := by
  unfold encode at encoded
  split at encoded
  · cases encoded
  · rename_i wires encodedList
    cases encoded
    have ascending : Entries.Ascending wires :=
      attributes.ascending.of_keys (keys_of_encodeList encodedList)
    rw [encodedList, KeyMap.entries_ofList ascending]

/-- The wire form of attributes is decoded to the same attributes. -/
theorem decode_of_encode (encoded : attributes.encode = .ok map) :
    ∃ decoded, decode map = .ok decoded ∧ same decoded attributes = true := by
  obtain ⟨values, decodedList, sameKeys, isSame⟩ :=
    decodeList_of_encodeList (entries_of_encode encoded)
  have ascending : Entries.Ascending values :=
    attributes.ascending.of_keys sameKeys
  refine ⟨KeyMap.ofList values, ?_, ?_⟩
  · simp only [decode, decodedList]
  · rw [same, KeyMap.entries_ofList ascending]
    exact isSame

/-- The wire form of attributes with ordered keys can be read. -/
theorem readable_of_encode
    (encoded : attributes.encode = .ok map) (ordered : attributes.Ordered) :
    ∀ entry ∈ map.entries, Json.Readable deepestLevel entry.2 := by
  intro wire member
  obtain ⟨entry, isEntry, encodedEntry⟩ :=
    exists_of_encodeList (entries_of_encode encoded) wire member
  exact AttributeValue.readable_of_encodeAt entry.2 encodedEntry
    (ordered entry isEntry)

theorem ordered_of_decodeList
    {wires : List (String × Json)} {deep : Nat}
    (readable : ∀ wire ∈ wires, Json.Readable deep wire.2) :
    ∀ entry ∈ (decodeList wires).1, entry.2.Ordered := by
  induction wires with
  | nil => exact fun _ member => absurd member List.not_mem_nil
  | cons wire rest inductionHypothesis =>
      obtain ⟨key, value⟩ := wire
      have others := inductionHypothesis fun wire member =>
        readable wire (List.mem_cons_of_mem _ member)
      simp only [decodeList]
      split
      · exact others
      · rename_i decoded isDecoded
        have first : decoded.Ordered :=
          AttributeValue.ordered_of_decodeAt value isDecoded
            (readable (key, value) List.mem_cons_self)
        exact List.forall_mem_cons.mpr ⟨first, others⟩

/-- Attributes that were read have ordered keys. -/
theorem ordered_of_decode
    {deep : Nat} (readable : ∀ entry ∈ map.entries, Json.Readable deep entry.2)
    (decoded : decode map = .ok attributes) : attributes.Ordered := by
  have ordered := ordered_of_decodeList readable
  unfold decode at decoded
  split at decoded
  · rename_i values isDecoded
    cases decoded
    rw [isDecoded] at ordered
    exact fun entry member => ordered entry (KeyMap.mem_of_mem_ofList member)
  · cases decoded

end Attributes

end TraceArchive
