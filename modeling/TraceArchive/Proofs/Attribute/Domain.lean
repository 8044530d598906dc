import TraceArchive.Proofs.Attribute.Exact

/-!
# What the attribute codec takes and gives

Reading and writing each apply one translation, which does not look at paths or
levels, to exactly those values that are finite and not too deep. Numbers apart
the two translations undo each other, and a number that was written once is
written the same way ever after. The main statement is
`AttributeValue.codec_exact`.
-/

namespace TraceArchive

/-! ## JSON values -/

namespace Json

mutual

/-- The number of levels of a value; a simple value has one. -/
def depth : Json → Nat
  | .list items => 1 + depthOfItems items
  | .object entries => 1 + depthOfEntries entries
  | _ => 1

/-- The greatest depth among values. -/
def depthOfItems : List Json → Nat
  | [] => 0
  | item :: rest => max (depth item) (depthOfItems rest)

/-- The greatest depth among the values of entries. -/
def depthOfEntries : List (String × Json) → Nat
  | [] => 0
  | (_, value) :: rest => max (depth value) (depthOfEntries rest)

end

mutual

/-- Whether all numbers in a value are finite. -/
def onlyFinite : Json → Bool
  | .number value => value.isFinite
  | .list items => onlyFiniteItems items
  | .object entries => onlyFiniteEntries entries
  | _ => true

/-- Whether all numbers in values are finite. -/
def onlyFiniteItems : List Json → Bool
  | [] => true
  | item :: rest => onlyFinite item && onlyFiniteItems rest

/-- Whether all numbers in the values of entries are finite. -/
def onlyFiniteEntries : List (String × Json) → Bool
  | [] => true
  | (_, value) :: rest => onlyFinite value && onlyFiniteEntries rest

end

/-- Whether a number is one that is written for some double. -/
def Number.Normal (wire : Number) : Prop :=
  ∃ value, AttributeValue.encodeNumber? value = some wire

mutual

/-- Whether all numbers in a value are such as are written. -/
def Normal : Json → Prop
  | .number value => value.Normal
  | .list items => NormalItems items
  | .object entries => NormalEntries entries
  | _ => True

/-- Whether all numbers in values are such as are written. -/
def NormalItems : List Json → Prop
  | [] => True
  | item :: rest => Normal item ∧ NormalItems rest

/-- Whether all numbers in the values of entries are such as are written. -/
def NormalEntries : List (String × Json) → Prop
  | [] => True
  | (_, value) :: rest => Normal value ∧ NormalEntries rest

end

/-- A number is finite just when the double next to it is. -/
theorem Number.isFinite_toDouble (number : Number) :
    number.toDouble.isFinite = number.isFinite := by
  cases number with
  | integer value inRange => exact Double.isFinite_ofInt inRange
  | double value => rfl

end Json

namespace AttributeValue

/-! ## Numbers -/

theorem encodeNumber?_ofInt
    {number : Int}
    (inRange :
      -9223372036854775808 ≤ number ∧ number < 18446744073709551616)
    (small : -exactLimit ≤ number ∧ number ≤ exactLimit) :
    encodeNumber? (.ofInt number) = some (.integer number inRange) := by
  have exact : number.natAbs ≤ 2 * Double.binade := by
    have isBinade := Double.binade_eq
    unfold exactLimit at small
    omega
  obtain ⟨whole, isNumber⟩ := Double.whole_ofInt exact
  have finite := Double.isFinite_ofInt inRange
  have fits :
      (Double.ofInt number).isWhole = true ∧
        -exactLimit ≤ (Double.ofInt number).wholePart ∧
          (Double.ofInt number).wholePart ≤ exactLimit := by
    rw [isNumber]
    exact ⟨whole, small⟩
  unfold encodeNumber?
  rw [if_pos finite]
  dsimp only
  rw [dif_pos fits]
  simp only [isNumber]

/-- A number that is written is written for its own double, too. -/
theorem encodeNumber?_toDouble
    {value : Double} {wire : Json.Number}
    (written : encodeNumber? value = some wire) :
    encodeNumber? wire.toDouble = some wire := by
  have given := written
  unfold encodeNumber? at written
  split at written
  · dsimp only at written
    split at written
    · rename_i exact
      cases written
      exact encodeNumber?_ofInt _ exact.2
    · cases written
      exact given
  · cases written

/-! ## Reading as a translation -/

mutual

theorem depth_ofStored :
    ∀ wire : Json, (ofStored wire).depth = wire.depth
  | .null => rfl
  | .boolean _ => rfl
  | .number _ => rfl
  | .string _ => rfl
  | .list items => by
      rw [ofStored, depth, Json.depth, depthOfItems_ofStoredItems items]
  | .object entries => by
      rw [ofStored, depth, Json.depth, depthOfEntries_ofStoredEntries entries]

theorem depthOfItems_ofStoredItems :
    ∀ wires : List Json,
      depthOfItems (ofStoredItems wires) = Json.depthOfItems wires
  | [] => rfl
  | wire :: rest => by
      rw [ofStoredItems, depthOfItems, Json.depthOfItems, depth_ofStored wire,
        depthOfItems_ofStoredItems rest]

theorem depthOfEntries_ofStoredEntries :
    ∀ wires : List (String × Json),
      depthOfEntries (ofStoredEntries wires) = Json.depthOfEntries wires
  | [] => rfl
  | (_, wire) :: rest => by
      rw [ofStoredEntries, depthOfEntries, Json.depthOfEntries,
        depth_ofStored wire, depthOfEntries_ofStoredEntries rest]

end

mutual

theorem value_of_decodeAt :
    ∀ (wire : Json) {path : String} {room : Nat} {value : AttributeValue},
      decodeAt path room wire = .ok value →
        value = ofStored wire ∧ wire.onlyFinite = true
  | _, _, 0, _, decoded => by
      simp only [decodeAt] at decoded
      cases decoded
  | .null, _, _ + 1, _, decoded => by
      cases decoded
      exact ⟨rfl, rfl⟩
  | .boolean _, _, _ + 1, _, decoded => by
      cases decoded
      exact ⟨rfl, rfl⟩
  | .number wire, _, _ + 1, _, decoded => by
      simp only [decodeAt] at decoded
      split at decoded
      · rename_i finite
        cases decoded
        exact ⟨rfl, wire.isFinite_toDouble.symm.trans finite⟩
      · cases decoded
  | .string _, _, _ + 1, _, decoded => by
      cases decoded
      exact ⟨rfl, rfl⟩
  | .list items, _, _ + 1, _, decoded => by
      simp only [decodeAt] at decoded
      split at decoded
      · cases decoded
      · rename_i values decodedItems
        cases decoded
        obtain ⟨isValue, finite⟩ := values_of_decodeItems items decodedItems
        exact ⟨congrArg list isValue, finite⟩
  | .object entries, _, _ + 1, _, decoded => by
      simp only [decodeAt] at decoded
      split at decoded
      · cases decoded
      · rename_i values decodedEntries
        cases decoded
        obtain ⟨isValue, finite⟩ :=
          values_of_decodeEntries entries decodedEntries
        exact ⟨congrArg map isValue, finite⟩

theorem values_of_decodeItems :
    ∀ (wires : List Json) {path : String} {index room : Nat}
      {values : List AttributeValue},
      decodeItems path index room wires = .ok values →
        values = ofStoredItems wires ∧ Json.onlyFiniteItems wires = true
  | [], _, _, _, _, decoded => by
      cases decoded
      exact ⟨rfl, rfl⟩
  | wire :: rest, _, _, _, _, decoded => by
      simp only [decodeItems] at decoded
      split at decoded
      · cases decoded
      · rename_i value decodedFirst
        split at decoded
        · cases decoded
        · rename_i others decodedRest
          cases decoded
          obtain ⟨rfl, finiteFirst⟩ := value_of_decodeAt wire decodedFirst
          obtain ⟨rfl, finiteRest⟩ := values_of_decodeItems rest decodedRest
          refine ⟨rfl, ?_⟩
          rw [Json.onlyFiniteItems, finiteFirst, finiteRest, Bool.and_self]

theorem values_of_decodeEntries :
    ∀ (wires : List (String × Json)) {path : String} {room : Nat}
      {values : List (String × AttributeValue)},
      decodeEntries path room wires = .ok values →
        values = ofStoredEntries wires ∧ Json.onlyFiniteEntries wires = true
  | [], _, _, _, decoded => by
      cases decoded
      exact ⟨rfl, rfl⟩
  | (key, wire) :: rest, _, _, _, decoded => by
      simp only [decodeEntries] at decoded
      split at decoded
      · cases decoded
      · rename_i value decodedFirst
        split at decoded
        · cases decoded
        · rename_i others decodedRest
          cases decoded
          obtain ⟨rfl, finiteFirst⟩ := value_of_decodeAt wire decodedFirst
          obtain ⟨rfl, finiteRest⟩ := values_of_decodeEntries rest decodedRest
          refine ⟨rfl, ?_⟩
          rw [Json.onlyFiniteEntries, finiteFirst, finiteRest, Bool.and_self]

end

mutual

theorem decodeAt_of_fits :
    ∀ (wire : Json) (path : String) {room : Nat}, wire.depth ≤ room →
      wire.onlyFinite = true → decodeAt path room wire = .ok (ofStored wire)
  | wire, _, 0, shallow, _ => by
      cases wire <;> simp [Json.depth] at shallow
  | .null, _, _ + 1, _, _ => rfl
  | .boolean _, _, _ + 1, _, _ => rfl
  | .number wire, _, _ + 1, _, finite => by
      have finiteDouble : wire.toDouble.isFinite = true :=
        wire.isFinite_toDouble.trans finite
      simp only [decodeAt, finiteDouble, if_true, ofStored]
  | .string _, _, _ + 1, _, _ => rfl
  | .list items, path, room + 1, shallow, finite => by
      rw [Json.depth] at shallow
      have decoded :=
        decodeItems_of_fits items path 0 (by omega : _ ≤ room) finite
      simp only [decodeAt, decoded, ofStored]
  | .object entries, path, room + 1, shallow, finite => by
      rw [Json.depth] at shallow
      have decoded :=
        decodeEntries_of_fits entries path (by omega : _ ≤ room) finite
      simp only [decodeAt, decoded, ofStored]

theorem decodeItems_of_fits :
    ∀ (wires : List Json) (path : String) (index : Nat) {room : Nat},
      Json.depthOfItems wires ≤ room → Json.onlyFiniteItems wires = true →
        decodeItems path index room wires = .ok (ofStoredItems wires)
  | [], _, _, _, _, _ => rfl
  | wire :: rest, path, index, room, shallow, finite => by
      rw [Json.depthOfItems, Nat.max_le] at shallow
      rw [Json.onlyFiniteItems, Bool.and_eq_true] at finite
      have first :=
        decodeAt_of_fits wire (itemPath path index) shallow.1 finite.1
      have others :=
        decodeItems_of_fits rest path (index + 1) shallow.2 finite.2
      simp only [decodeItems, first, others, ofStoredItems]

theorem decodeEntries_of_fits :
    ∀ (wires : List (String × Json)) (path : String) {room : Nat},
      Json.depthOfEntries wires ≤ room → Json.onlyFiniteEntries wires = true →
        decodeEntries path room wires = .ok (ofStoredEntries wires)
  | [], _, _, _, _ => rfl
  | (key, wire) :: rest, path, room, shallow, finite => by
      rw [Json.depthOfEntries, Nat.max_le] at shallow
      rw [Json.onlyFiniteEntries, Bool.and_eq_true] at finite
      have first :=
        decodeAt_of_fits wire (keyPath path key) shallow.1 finite.1
      have others := decodeEntries_of_fits rest path shallow.2 finite.2
      simp only [decodeEntries, first, others, ofStoredEntries]

end

theorem depth_of_decodeAt
    {path : String} {room : Nat} {wire : Json} {value : AttributeValue}
    (decoded : decodeAt path room wire = .ok value) : wire.depth ≤ room := by
  obtain ⟨rfl, -⟩ := value_of_decodeAt wire decoded
  obtain ⟨shallow, -⟩ := fits_of_decodeAt path room wire _ decoded
  rwa [depth_ofStored] at shallow

/-- Reading translates what is finite and not too deep, and refuses all else. -/
theorem decode_eq_ok_iff {wire : Json} {value : AttributeValue} :
    decode wire = .ok value ↔
      wire.depth ≤ deepestLevel ∧ wire.onlyFinite = true ∧
        value = ofStored wire := by
  constructor
  · intro decoded
    obtain ⟨rfl, finite⟩ := value_of_decodeAt wire decoded
    exact ⟨depth_of_decodeAt decoded, finite, rfl⟩
  · rintro ⟨shallow, finite, rfl⟩
    exact decodeAt_of_fits wire "" shallow finite

/-! ## Writing as a translation -/

/-- The number that is written for a double; one that is not finite stays as it
is. -/
def wireNumber (value : Double) : Json.Number :=
  (encodeNumber? value).getD (.double value)

mutual

/-- The wire form of a value, whether it is refused or not. -/
def wireForm : AttributeValue → Json
  | .null => .null
  | .boolean value => .boolean value
  | .number value => .number (wireNumber value)
  | .string value => .string value
  | .list items => .list (wireItems items)
  | .map entries => .object (wireEntries entries)

/-- The wire forms of values. -/
def wireItems : List AttributeValue → List Json
  | [] => []
  | item :: rest => wireForm item :: wireItems rest

/-- The wire forms of entries. -/
def wireEntries : List (String × AttributeValue) → List (String × Json)
  | [] => []
  | (key, value) :: rest => (key, wireForm value) :: wireEntries rest

end

mutual

theorem wire_of_encodeAt :
    ∀ (value : AttributeValue) {path : String} {room : Nat} {wire : Json},
      encodeAt path room value = .ok wire →
        wire = value.wireForm ∧ value.depth ≤ room ∧ value.onlyFinite = true
  | _, _, 0, _, encoded => by
      simp only [encodeAt] at encoded
      cases encoded
  | .null, _, room + 1, _, encoded => by
      cases encoded
      exact ⟨rfl, Nat.le_add_left 1 room, rfl⟩
  | .boolean _, _, room + 1, _, encoded => by
      cases encoded
      exact ⟨rfl, Nat.le_add_left 1 room, rfl⟩
  | .number value, _, room + 1, _, encoded => by
      simp only [encodeAt] at encoded
      split at encoded
      · cases encoded
      · rename_i wire isWire
        cases encoded
        refine ⟨?_, Nat.le_add_left 1 room, ?_⟩
        · rw [wireForm, wireNumber, isWire, Option.getD_some]
        · by_contra infinite
          rw [onlyFinite] at infinite
          rw [encodeNumber?, if_neg infinite] at isWire
          cases isWire
  | .string _, _, room + 1, _, encoded => by
      cases encoded
      exact ⟨rfl, Nat.le_add_left 1 room, rfl⟩
  | .list items, _, room + 1, _, encoded => by
      simp only [encodeAt] at encoded
      split at encoded
      · cases encoded
      · rename_i wires encodedItems
        cases encoded
        obtain ⟨rfl, shallow, finite⟩ :=
          wires_of_encodeItems items encodedItems
        refine ⟨rfl, ?_, finite⟩
        rw [depth]
        omega
  | .map entries, _, room + 1, _, encoded => by
      simp only [encodeAt] at encoded
      split at encoded
      · cases encoded
      · rename_i wires encodedEntries
        cases encoded
        obtain ⟨rfl, shallow, finite⟩ :=
          wires_of_encodeEntries entries encodedEntries
        refine ⟨rfl, ?_, finite⟩
        rw [depth]
        omega

theorem wires_of_encodeItems :
    ∀ (items : List AttributeValue) {path : String} {index room : Nat}
      {wires : List Json}, encodeItems path index room items = .ok wires →
        wires = wireItems items ∧ depthOfItems items ≤ room ∧
          onlyFiniteItems items = true
  | [], _, _, room, _, encoded => by
      cases encoded
      exact ⟨rfl, Nat.zero_le room, rfl⟩
  | item :: rest, _, _, _, _, encoded => by
      simp only [encodeItems] at encoded
      split at encoded
      · cases encoded
      · rename_i wire encodedFirst
        split at encoded
        · cases encoded
        · rename_i wires encodedRest
          cases encoded
          obtain ⟨rfl, shallowFirst, finiteFirst⟩ :=
            wire_of_encodeAt item encodedFirst
          obtain ⟨rfl, shallowRest, finiteRest⟩ :=
            wires_of_encodeItems rest encodedRest
          refine ⟨rfl, Nat.max_le.mpr ⟨shallowFirst, shallowRest⟩, ?_⟩
          rw [onlyFiniteItems, finiteFirst, finiteRest, Bool.and_self]

theorem wires_of_encodeEntries :
    ∀ (entries : List (String × AttributeValue)) {path : String} {room : Nat}
      {wires : List (String × Json)},
      encodeEntries path room entries = .ok wires →
        wires = wireEntries entries ∧ depthOfEntries entries ≤ room ∧
          onlyFiniteEntries entries = true
  | [], _, room, _, encoded => by
      cases encoded
      exact ⟨rfl, Nat.zero_le room, rfl⟩
  | (key, value) :: rest, _, _, _, encoded => by
      simp only [encodeEntries] at encoded
      split at encoded
      · cases encoded
      · rename_i wire encodedFirst
        split at encoded
        · cases encoded
        · rename_i wires encodedRest
          cases encoded
          obtain ⟨rfl, shallowFirst, finiteFirst⟩ :=
            wire_of_encodeAt value encodedFirst
          obtain ⟨rfl, shallowRest, finiteRest⟩ :=
            wires_of_encodeEntries rest encodedRest
          refine ⟨rfl, Nat.max_le.mpr ⟨shallowFirst, shallowRest⟩, ?_⟩
          rw [onlyFiniteEntries, finiteFirst, finiteRest, Bool.and_self]

end

/-- Writing translates what is finite and not too deep, and refuses all else. -/
theorem encode_eq_ok_iff {value : AttributeValue} {wire : Json} :
    value.encode = .ok wire ↔
      value.depth ≤ deepestLevel ∧ value.onlyFinite = true ∧
        wire = value.wireForm := by
  constructor
  · intro encoded
    obtain ⟨isWire, shallow, finite⟩ := wire_of_encodeAt value encoded
    exact ⟨shallow, finite, isWire⟩
  · rintro ⟨shallow, finite, rfl⟩
    obtain ⟨wire, encoded⟩ :=
      encodeAt_of_fits "" deepestLevel value shallow finite
    obtain ⟨rfl, -⟩ := wire_of_encodeAt value encoded
    exact encoded

/-! ## One translation after the other -/

mutual

/-- What is written has the numbers that are written. -/
theorem normal_wireForm :
    ∀ value : AttributeValue, value.onlyFinite = true → value.wireForm.Normal
  | .null, _ => trivial
  | .boolean _, _ => trivial
  | .number value, finite => by
      obtain ⟨wire, isWire⟩ := encodeNumber?_of_finite finite
      rw [wireForm, wireNumber, isWire, Option.getD_some]
      exact ⟨value, isWire⟩
  | .string _, _ => trivial
  | .list items, finite => normalItems_wireItems items finite
  | .map entries, finite => normalEntries_wireEntries entries finite

theorem normalItems_wireItems :
    ∀ items : List AttributeValue, onlyFiniteItems items = true →
      Json.NormalItems (wireItems items)
  | [], _ => trivial
  | item :: rest, finite => by
      rw [onlyFiniteItems, Bool.and_eq_true] at finite
      exact ⟨normal_wireForm item finite.1, normalItems_wireItems rest finite.2⟩

theorem normalEntries_wireEntries :
    ∀ entries : List (String × AttributeValue),
      onlyFiniteEntries entries = true →
        Json.NormalEntries (wireEntries entries)
  | [], _ => trivial
  | (_, value) :: rest, finite => by
      rw [onlyFiniteEntries, Bool.and_eq_true] at finite
      exact
        ⟨normal_wireForm value finite.1,
          normalEntries_wireEntries rest finite.2⟩

end

mutual

/-- A value with the numbers that are written is written as it was read. -/
theorem wireForm_ofStored :
    ∀ wire : Json, wire.Normal → (ofStored wire).wireForm = wire
  | .null, _ => rfl
  | .boolean _, _ => rfl
  | .number wire, ⟨_, written⟩ => by
      rw [ofStored, wireForm, wireNumber, encodeNumber?_toDouble written,
        Option.getD_some]
  | .string _, _ => rfl
  | .list items, normal =>
      congrArg Json.list (wireItems_ofStoredItems items normal)
  | .object entries, normal =>
      congrArg Json.object (wireEntries_ofStoredEntries entries normal)

theorem wireItems_ofStoredItems :
    ∀ wires : List Json, Json.NormalItems wires →
      wireItems (ofStoredItems wires) = wires
  | [], _ => rfl
  | wire :: rest, normal => by
      rw [ofStoredItems, wireItems, wireForm_ofStored wire normal.1,
        wireItems_ofStoredItems rest normal.2]

theorem wireEntries_ofStoredEntries :
    ∀ wires : List (String × Json), Json.NormalEntries wires →
      wireEntries (ofStoredEntries wires) = wires
  | [], _ => rfl
  | (_, wire) :: rest, normal => by
      rw [ofStoredEntries, wireEntries, wireForm_ofStored wire normal.1,
        wireEntries_ofStoredEntries rest normal.2]

end

/-! ## The codec -/

theorem encode_eq_null_iff {value : AttributeValue} :
    value.encode = .ok .null ↔ value = .null := by
  refine ⟨fun encoded => ?_, fun isNull => isNull ▸ rfl⟩
  obtain ⟨-, -, isWire⟩ := encode_eq_ok_iff.mp encoded
  cases value <;> simp [wireForm] at isWire ⊢

theorem encode_eq_emptyList_iff {value : AttributeValue} :
    value.encode = .ok (.list []) ↔ value = .list [] := by
  refine ⟨fun encoded => ?_, fun isEmpty => isEmpty ▸ rfl⟩
  obtain ⟨-, -, isWire⟩ := encode_eq_ok_iff.mp encoded
  cases value with
  | list items => cases items <;> simp [wireForm, wireItems] at isWire ⊢
  | _ => simp [wireForm] at isWire

theorem encode_eq_emptyMap_iff {value : AttributeValue} :
    value.encode = .ok (.object []) ↔ value = .map [] := by
  refine ⟨fun encoded => ?_, fun isEmpty => isEmpty ▸ rfl⟩
  obtain ⟨-, -, isWire⟩ := encode_eq_ok_iff.mp encoded
  cases value with
  | map entries => cases entries <;> simp [wireForm, wireEntries] at isWire ⊢
  | _ => simp [wireForm] at isWire

theorem decode_eq_null_iff {wire : Json} :
    decode wire = .ok .null ↔ wire = .null := by
  refine ⟨fun decoded => ?_, fun isNull => isNull ▸ rfl⟩
  obtain ⟨-, -, isValue⟩ := decode_eq_ok_iff.mp decoded
  cases wire <;> simp [ofStored] at isValue ⊢

theorem decode_eq_emptyList_iff {wire : Json} :
    decode wire = .ok (.list []) ↔ wire = .list [] := by
  refine ⟨fun decoded => ?_, fun isEmpty => isEmpty ▸ rfl⟩
  obtain ⟨-, -, isValue⟩ := decode_eq_ok_iff.mp decoded
  cases wire with
  | list items => cases items <;> simp [ofStored, ofStoredItems] at isValue ⊢
  | _ => simp [ofStored] at isValue

theorem decode_eq_emptyMap_iff {wire : Json} :
    decode wire = .ok (.map []) ↔ wire = .object [] := by
  refine ⟨fun decoded => ?_, fun isEmpty => isEmpty ▸ rfl⟩
  obtain ⟨-, -, isValue⟩ := decode_eq_ok_iff.mp decoded
  cases wire with
  | object entries =>
      cases entries <;> simp [ofStored, ofStoredEntries] at isValue ⊢
  | _ => simp [ofStored] at isValue

/-- What is written is read and written again as it was. -/
theorem encode_of_written
    {value : AttributeValue} {wire : Json}
    (encoded : value.encode = .ok wire) :
    ∃ decoded, decode wire = .ok decoded ∧ decoded.same value = true ∧
      decoded.encode = .ok wire := by
  obtain ⟨shallow, finite, rfl⟩ := encode_eq_ok_iff.mp encoded
  obtain ⟨decoded, isDecoded, isSame⟩ := decodeAt_of_encodeAt value "" encoded
  refine ⟨decoded, isDecoded, isSame, ?_⟩
  obtain ⟨shallowAgain, finiteAgain⟩ :=
    fits_of_decodeAt "" deepestLevel _ _ isDecoded
  obtain ⟨rfl, -⟩ := value_of_decodeAt _ isDecoded
  have normal := normal_wireForm value finite
  exact encode_eq_ok_iff.mpr
    ⟨shallowAgain, finiteAgain, (wireForm_ofStored _ normal).symm⟩

theorem codec_integer
    {number : Int}
    (inRange :
      -9223372036854775808 ≤ number ∧ number < 18446744073709551616)
    (small : -exactLimit ≤ number ∧ number ≤ exactLimit) :
    ∃ held : Double, held.isWhole = true ∧ held.wholePart = number ∧
      decode (.number (.integer number inRange)) = .ok (.number held) ∧
      encode (.number held) = .ok (.number (.integer number inRange)) := by
  have exact : number.natAbs ≤ 2 * Double.binade := by
    have isBinade := Double.binade_eq
    unfold exactLimit at small
    omega
  obtain ⟨whole, isNumber⟩ := Double.whole_ofInt exact
  have finite := Double.isFinite_ofInt inRange
  refine ⟨.ofInt number, whole, isNumber, ?_, ?_⟩
  · exact decode_eq_ok_iff.mpr ⟨by simp [Json.depth, deepestLevel], rfl, rfl⟩
  · refine encode_eq_ok_iff.mpr ⟨by simp [depth, deepestLevel], finite, ?_⟩
    rw [wireForm, wireNumber, encodeNumber?_ofInt inRange small,
      Option.getD_some]

/-- A value is written just when it is finite and not too deep, and so it is
read. What was written is read as the same value, both zeros counting as one
number, and what was read keeps its depth and is written in a form that is read
and written unchanged; that form is the one that was read if its numbers are
such as are written. Whole numbers within the exact range of doubles come back
exactly. Nothing but `null` is written or read as `null`, nothing but the empty
list as the empty list and nothing but the empty map as the empty map. -/
theorem codec_exact :
    (∀ value : AttributeValue,
      ((∃ wire, value.encode = .ok wire) ↔
        value.depth ≤ deepestLevel ∧ value.onlyFinite = true) ∧
      ∀ wire, value.encode = .ok wire →
        ∃ decoded, decode wire = .ok decoded ∧
          decoded.same value = true) ∧
    (∀ wire : Json,
      ((∃ value, decode wire = .ok value) ↔
        wire.depth ≤ deepestLevel ∧ wire.onlyFinite = true) ∧
      ∀ value, decode wire = .ok value →
        value.depth = wire.depth ∧
        ∃ again decoded, value.encode = .ok again ∧
          decode again = .ok decoded ∧ decoded.same value = true ∧
          decoded.encode = .ok again ∧
          (wire.Normal → again = wire)) ∧
    (∀ (number : Int)
      (inRange :
        -9223372036854775808 ≤ number ∧ number < 18446744073709551616),
      -exactLimit ≤ number ∧ number ≤ exactLimit →
        ∃ held : Double, held.isWhole = true ∧ held.wholePart = number ∧
          decode (.number (.integer number inRange)) = .ok (.number held) ∧
          encode (.number held) = .ok (.number (.integer number inRange))) ∧
    (∀ value : AttributeValue,
      (value.encode = .ok .null ↔ value = .null) ∧
      (value.encode = .ok (.list []) ↔ value = .list []) ∧
      (value.encode = .ok (.object []) ↔ value = .map [])) ∧
    (∀ wire : Json,
      (decode wire = .ok .null ↔ wire = .null) ∧
      (decode wire = .ok (.list []) ↔ wire = .list []) ∧
      (decode wire = .ok (.map []) ↔ wire = .object [])) := by
  refine ⟨fun value => ⟨⟨?_, ?_⟩, ?_⟩, fun wire => ⟨⟨?_, ?_⟩, ?_⟩, ?_, ?_, ?_⟩
  · rintro ⟨wire, encoded⟩
    obtain ⟨shallow, finite, -⟩ := encode_eq_ok_iff.mp encoded
    exact ⟨shallow, finite⟩
  · rintro ⟨shallow, finite⟩
    exact ⟨_, encode_eq_ok_iff.mpr ⟨shallow, finite, rfl⟩⟩
  · intro wire encoded
    obtain ⟨decoded, isDecoded, isSame, -⟩ := encode_of_written encoded
    exact ⟨decoded, isDecoded, isSame⟩
  · rintro ⟨value, decoded⟩
    obtain ⟨shallow, finite, -⟩ := decode_eq_ok_iff.mp decoded
    exact ⟨shallow, finite⟩
  · rintro ⟨shallow, finite⟩
    exact ⟨_, decode_eq_ok_iff.mpr ⟨shallow, finite, rfl⟩⟩
  · intro value isDecoded
    obtain ⟨shallow, finite⟩ :=
      fits_of_decodeAt "" deepestLevel wire value isDecoded
    obtain ⟨-, -, rfl⟩ := decode_eq_ok_iff.mp isDecoded
    have encoded := encode_eq_ok_iff.mpr ⟨shallow, finite, rfl⟩
    obtain ⟨decoded, decodedAgain, isSame, encodedAgain⟩ :=
      encode_of_written encoded
    exact
      ⟨depth_ofStored wire, _, decoded, encoded, decodedAgain, isSame,
        encodedAgain, wireForm_ofStored wire⟩
  · exact fun number inRange small => codec_integer inRange small
  · exact fun _ =>
      ⟨encode_eq_null_iff, encode_eq_emptyList_iff, encode_eq_emptyMap_iff⟩
  · exact fun _ =>
      ⟨decode_eq_null_iff, decode_eq_emptyList_iff, decode_eq_emptyMap_iff⟩

end AttributeValue

end TraceArchive
