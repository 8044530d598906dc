import TraceArchive.Identifier
import TraceArchive.Proofs.Text.Hex
import TraceArchive.Service.IdSequence

/-!
# Keys of traces

The key of a trace is the hexadecimal form of an identifier that has at least
one byte. On keys the case of letters does not matter any more: an identifier
that names the trace with a key has that key as its form. A text that spells an
identifier, in either case and with blanks around it, has the key of that
identifier: `Identifier.keysAreNormal`.
-/

namespace TraceArchive

/-! ## Keys -/

/-- Whether a text may be the key of a trace: digits in lower case, two for each
byte, and not none. -/
structure IsKey (key : String) : Prop where
  filled : key ≠ ""
  even : key.length % 2 = 0
  digits : ∀ character ∈ key.toList, Text.Hex.IsLowerDigit character

namespace Identifier

variable {identifier : Identifier}

theorem digits_toHex :
    ∀ character ∈ identifier.toHex.toList,
      Text.Hex.IsLowerDigit character := by
  intro character member
  rw [toHex, String.toList_ofList] at member
  exact Text.Hex.isLowerDigit_of_mem_encode member

theorem isKey_toHex
    (filled : identifier.isEmpty = false) : IsKey identifier.toHex where
  filled := by
    intro same
    have noDigits := congrArg String.length same
    simp only [toHex, String.length_ofList, Text.Hex.length_encode,
      String.length_empty] at noDigits
    have noBytes : identifier.bytes = [] :=
      List.length_eq_zero_iff.mp (by omega)
    simp [isEmpty, noBytes] at filled
  even := by simp [toHex]
  digits := digits_toHex

theorem isKey_of_keyOf?
    {text key : String} (isKey : keyOf? text = some key) : IsKey key := by
  unfold keyOf? at isKey
  split at isKey
  · cases isKey
  · split at isKey
    · cases isKey
    · rename_i filled
      cases isKey
      exact isKey_toHex (Bool.eq_false_iff.mpr filled)

@[simp]
theorem ofHex_toHex (identifier : Identifier) :
    ofHex identifier.toHex = .ok identifier := by
  rw [ofHex, toHex, String.toList_ofList, Text.Hex.decode_encode]

theorem toHex_injective
    {left right : Identifier} (same : left.toHex = right.toHex) :
    left = right := by
  have bothRead := congrArg ofHex same
  rw [ofHex_toHex, ofHex_toHex] at bothRead
  exact Except.ok.inj bothRead

theorem exists_toHex {key : String} (isKey : IsKey key) :
    ∃ identifier : Identifier,
      identifier.isEmpty = false ∧ identifier.toHex = key := by
  have even : key.toList.length % 2 = 0 := by
    rw [String.length_toList]
    exact isKey.even
  obtain ⟨bytes, isText⟩ := Text.Hex.exists_encode even isKey.digits
  have isHex : toHex ⟨bytes⟩ = key := by
    rw [toHex, isText, String.ofList_toList]
  refine ⟨⟨bytes⟩, ?_, isHex⟩
  cases bytes with
  | nil => exact absurd isHex.symm isKey.filled
  | cons byte rest => rfl

theorem trimmed_of_isKey {key : String} (isKey : IsKey key) :
    Text.trimmed key = key := by
  rw [Text.trimmed, Text.trim_of_no_blank, String.ofList_toList]
  intro character member
  exact Text.Hex.not_isBlank_of_isLowerDigit (isKey.digits character member)

/-- A key is the key of the trace that it names. -/
theorem keyOf?_of_isKey {key : String} (isKey : IsKey key) :
    keyOf? key = some key := by
  have plain := trimmed_of_isKey isKey
  obtain ⟨identifier, filled, rfl⟩ := exists_toHex isKey
  rw [keyOf?, plain, ofHex_toHex]
  simp only [filled, Bool.false_eq_true, if_false]

theorem hasKey_of_toHex
    {key : String} (isKey : identifier.toHex = key) :
    identifier.hasKey key = true := by
  rw [hasKey, isKey, beq_self_eq_true]

/-- An identifier that names the trace with a key has that key. -/
theorem toHex_of_hasKey
    {key : String} (isKey : IsKey key)
    (names : identifier.hasKey key = true) :
    identifier.toHex = key := by
  unfold hasKey at names
  rw [Text.Hex.lowered_of_isLowerDigit isKey.digits,
    Text.Hex.lowered_of_isLowerDigit digits_toHex] at names
  exact eq_of_beq names

/-! ## Spellings -/

/-- Whether a text spells an identifier: without the blanks around it, it is the
digits of the identifier, some in upper case perhaps, and at least one. -/
structure IsSpelledBy (identifier : Identifier) (text : String) : Prop where
  filled : identifier.isEmpty = false
  spelled :
    ∃ digits, Text.IsTrimmed digits text.toList ∧
      digits.map Char.toLower = identifier.toHex.toList

theorem ofHex_eq_ok_iff {text : String} :
    ofHex text = .ok identifier ↔ Text.lowered text = identifier.toHex := by
  have decoded :
      ofHex text = .ok identifier ↔
        Text.Hex.decode text.toList = .ok identifier.bytes := by
    obtain ⟨bytes⟩ := identifier
    unfold ofHex
    cases Text.Hex.decode text.toList <;> simp
  rw [decoded, Text.Hex.decode_eq_ok_iff, Text.lowered, toHex,
    String.ofList_inj, eq_comm]

theorem isSpelledBy_iff {text : String} :
    identifier.IsSpelledBy text ↔
      identifier.isEmpty = false ∧
        ofHex (Text.trimmed text) = .ok identifier := by
  have lower :
      ∀ digits, Text.trim text.toList = digits →
        (ofHex (Text.trimmed text) = .ok identifier ↔
          digits.map Char.toLower = identifier.toHex.toList) := by
    rintro digits rfl
    rw [ofHex_eq_ok_iff, Text.lowered, Text.trimmed, String.toList_ofList,
      String.ext_iff, String.toList_ofList]
  constructor
  · rintro ⟨filled, digits, trimmed, isForm⟩
    exact ⟨filled, (lower digits (Text.trim_eq_iff.mpr trimmed)).mpr isForm⟩
  · rintro ⟨filled, decoded⟩
    exact ⟨filled, _, Text.isTrimmed_trim _, (lower _ rfl).mp decoded⟩

/-- The key of a trace is that of the identifier that the text spells. -/
theorem keyOf?_eq_some_iff {text key : String} :
    keyOf? text = some key ↔
      ∃ identifier : Identifier,
        identifier.IsSpelledBy text ∧ identifier.toHex = key := by
  simp only [isSpelledBy_iff, keyOf?]
  cases ofHex (Text.trimmed text) with
  | error fault => simp
  | ok identifier =>
      dsimp only
      split
      · rename_i empty
        simp only [reduceCtorEq, Except.ok.injEq, false_iff]
        rintro ⟨other, ⟨filled, rfl⟩, _⟩
        rw [empty] at filled
        cases filled
      · rename_i filled
        rw [Option.some.injEq]
        constructor
        · exact fun isForm =>
            ⟨identifier, ⟨Bool.eq_false_iff.mpr filled, rfl⟩, isForm⟩
        · rintro ⟨_, ⟨_, ⟨⟩⟩, isForm⟩
          exact isForm

theorem keyOf?_eq_toHex_iff {text : String} :
    keyOf? text = some identifier.toHex ↔ identifier.IsSpelledBy text := by
  rw [keyOf?_eq_some_iff]
  constructor
  · rintro ⟨other, spelled, same⟩
    rwa [← toHex_injective same]
  · exact fun spelled => ⟨identifier, spelled, rfl⟩

/-- Whether a text consists of hexadecimal digits in either case, two for each
byte, and not none. -/
structure IsHexadecimal (text : String) : Prop where
  filled : text ≠ ""
  even : text.length % 2 = 0
  digits : ∀ character ∈ text.toList, Text.Hex.IsDigit character

theorem isKey_lowered_iff {text : String} :
    IsKey (Text.lowered text) ↔ IsHexadecimal text := by
  have isLower :
      (∀ character ∈ (Text.lowered text).toList,
          Text.Hex.IsLowerDigit character) ↔
        ∀ character ∈ text.toList, Text.Hex.IsDigit character := by
    simp [Text.lowered, Text.Hex.isDigit_iff]
  have isFilled : Text.lowered text ≠ "" ↔ text ≠ "" := by
    rw [ne_eq, ne_eq, ← String.toList_inj, ← @String.toList_inj text,
      Text.lowered, String.toList_ofList, String.toList_empty,
      List.map_eq_nil_iff]
  have isEven : (Text.lowered text).length = text.length := by
    rw [Text.lowered, String.length_ofList, List.length_map,
      String.length_toList]
  constructor
  · rintro ⟨filled, even, digits⟩
    exact ⟨isFilled.mp filled, isEven ▸ even, isLower.mp digits⟩
  · rintro ⟨filled, even, digits⟩
    exact ⟨isFilled.mpr filled, isEven.symm ▸ even, isLower.mpr digits⟩

/-- What makes the key of a trace the normal form of the texts that name it. -/
structure KeysAreNormal : Prop where
  /-- The texts that name a trace, and its key. -/
  keyOf?_iff :
    ∀ text key, keyOf? text = some key ↔
      IsHexadecimal (Text.trimmed text) ∧
        key = Text.lowered (Text.trimmed text)
  again : ∀ text key, keyOf? text = some key → keyOf? key = some key
  /-- Texts have the same key if they are read as the same bytes. -/
  same_iff :
    ∀ left right,
      (∃ key, keyOf? left = some key ∧ keyOf? right = some key) ↔
        ∃ identifier : Identifier, identifier.isEmpty = false ∧
          ofHex (Text.trimmed left) = .ok identifier ∧
            ofHex (Text.trimmed right) = .ok identifier
  ofHex : ∀ identifier : Identifier, ofHex identifier.toHex = .ok identifier
  hasKey_iff :
    ∀ (identifier : Identifier) (text key : String),
      keyOf? text = some key →
        (identifier.hasKey key = true ↔ key = identifier.toHex)

theorem keysAreNormal : KeysAreNormal where
  keyOf?_iff := by
    intro text key
    rw [← isKey_lowered_iff]
    constructor
    · intro isKey
      obtain ⟨identifier, spelled, rfl⟩ := keyOf?_eq_some_iff.mp isKey
      have isForm := ofHex_eq_ok_iff.mp (isSpelledBy_iff.mp spelled).2
      rw [isForm]
      exact ⟨isKey_toHex spelled.filled, rfl⟩
    · rintro ⟨isKey, rfl⟩
      obtain ⟨identifier, filled, isForm⟩ := exists_toHex isKey
      have read := ofHex_eq_ok_iff.mpr isForm.symm
      exact
        keyOf?_eq_some_iff.mpr
          ⟨identifier, isSpelledBy_iff.mpr ⟨filled, read⟩, isForm⟩
  again _ _ isKey := keyOf?_of_isKey (isKey_of_keyOf? isKey)
  same_iff := by
    intro left right
    simp only [keyOf?_eq_some_iff]
    constructor
    · rintro ⟨_, ⟨identifier, ofLeft, rfl⟩, other, ofRight, same⟩
      cases toHex_injective same
      exact
        ⟨identifier, ofLeft.filled, (isSpelledBy_iff.mp ofLeft).2,
          (isSpelledBy_iff.mp ofRight).2⟩
    · rintro ⟨identifier, filled, ofLeft, ofRight⟩
      exact
        ⟨identifier.toHex,
          ⟨identifier, isSpelledBy_iff.mpr ⟨filled, ofLeft⟩, rfl⟩,
          identifier, isSpelledBy_iff.mpr ⟨filled, ofRight⟩, rfl⟩
  ofHex := ofHex_toHex
  hasKey_iff := by
    intro identifier text key isKey
    constructor
    · intro names
      exact (toHex_of_hasKey (isKey_of_keyOf? isKey) names).symm
    · rintro rfl
      exact hasKey_of_toHex rfl

end Identifier

/-! ## Allocated identifiers -/

namespace IdSequence

theorem isEmpty_of_allocate
    {sequence : IdSequence} {identifier : Identifier}
    (given : sequence.allocate.2 = .ok identifier) :
    identifier.isEmpty = false := by
  unfold allocate at given
  split at given
  · cases given
    rfl
  · cases given

end IdSequence

end TraceArchive
