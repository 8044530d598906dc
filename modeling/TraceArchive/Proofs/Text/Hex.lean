import TraceArchive.Proofs.Text.Blank
import TraceArchive.Text.Hex

/-!
# Hexadecimal digits

Byte strings are written with digits in lower case and read with digits in either
case: a text is read as the bytes whose digits are its own in lower case. The main
statement is `Text.Hex.decode_eq_ok_iff`.
-/

namespace TraceArchive.Text.Hex

/-! ## Digits in lower case -/

/-- Whether a character is a hexadecimal digit in lower case. -/
def IsLowerDigit (character : Char) : Prop :=
  '0' ≤ character ∧ character ≤ '9' ∨ 'a' ≤ character ∧ character ≤ 'f'

theorem isLowerDigit_digit
    {value : Nat} (small : value < 16) :
    IsLowerDigit (digit value) := by
  have all : ∀ value < 16,
      '0' ≤ digit value ∧ digit value ≤ '9' ∨
        'a' ≤ digit value ∧ digit value ≤ 'f' := by
    decide
  exact all value small

theorem isLowerDigit_of_mem_encode
    {bytes : List UInt8} {character : Char}
    (member : character ∈ encode bytes) :
    IsLowerDigit character := by
  obtain ⟨byte, _, inByte⟩ := List.mem_flatMap.mp member
  have small := byte.toNat_lt
  simp only [encodeByte, List.mem_cons, List.not_mem_nil, or_false] at inByte
  rcases inByte with rfl | rfl
  · exact isLowerDigit_digit (by omega)
  · exact isLowerDigit_digit (by omega)

@[simp]
theorem length_encode (bytes : List UInt8) :
    (encode bytes).length = 2 * bytes.length := by
  induction bytes with
  | nil => rfl
  | cons byte rest inductionHypothesis =>
      simp only [encode, List.flatMap_cons, encodeByte, List.length_append,
        List.length_cons, List.length_nil] at inductionHypothesis ⊢
      omega

theorem toLower_of_isLowerDigit
    {character : Char} (isDigit : IsLowerDigit character) :
    character.toLower = character := by
  have notUpper : ¬(character.val ≥ 'A'.val ∧ character.val ≤ 'Z'.val) := by
    rintro ⟨fromA, toZ⟩
    rcases isDigit with ⟨_, toNine⟩ | ⟨froma, _⟩
    · exact absurd (UInt32.le_trans fromA toNine) (by decide)
    · exact absurd (UInt32.le_trans froma toZ) (by decide)
  unfold Char.toLower
  exact dif_neg notUpper

/-- Lower case does not change digits in lower case. -/
theorem map_toLower_of_isLowerDigit
    {characters : List Char}
    (digits : ∀ character ∈ characters, IsLowerDigit character) :
    characters.map Char.toLower = characters := by
  refine (List.map_congr_left fun character member => ?_).trans (List.map_id _)
  exact toLower_of_isLowerDigit (digits character member)

theorem lowered_of_isLowerDigit
    {text : String}
    (digits : ∀ character ∈ text.toList, IsLowerDigit character) :
    Text.lowered text = text := by
  rw [Text.lowered, map_toLower_of_isLowerDigit digits, String.ofList_toList]

theorem digit_of_isLowerDigit
    {character : Char} (isDigit : IsLowerDigit character) :
    ∃ value < 16, digit value = character := by
  have isCharacter : Char.ofNat character.toNat = character :=
    Char.ofNat_toNat character
  rcases isDigit with ⟨low, high⟩ | ⟨low, high⟩
  · have least : 48 ≤ character.toNat := low
    have greatest : character.toNat ≤ 57 := high
    refine ⟨character.toNat - 48, by omega, ?_⟩
    rw [digit, if_pos (by omega)]
    change Char.ofNat (48 + (character.toNat - 48)) = character
    rw [Nat.add_sub_cancel' least, isCharacter]
  · have least : 97 ≤ character.toNat := low
    have greatest : character.toNat ≤ 102 := high
    refine ⟨character.toNat - 87, by omega, ?_⟩
    rw [digit, if_neg (by omega)]
    change Char.ofNat (97 + (character.toNat - 87) - 10) = character
    rw [show 97 + (character.toNat - 87) - 10 = character.toNat by omega,
      isCharacter]

theorem not_isBlank_of_isLowerDigit
    {character : Char} (isDigit : IsLowerDigit character) :
    isBlank character = false := by
  have all : ∀ value < 16, isBlank (digit value) = false := by decide
  obtain ⟨value, small, rfl⟩ := digit_of_isLowerDigit isDigit
  exact all value small

/-- The digits of a byte that is made of the values of two digits. -/
theorem encode_cons {high low : Nat} (highSmall : high < 16) (lowSmall : low < 16)
    (rest : List UInt8) :
    encode (UInt8.ofNat (16 * high + low) :: rest) =
      digit high :: digit low :: encode rest := by
  have isByte : (UInt8.ofNat (16 * high + low)).toNat = 16 * high + low := by
    rw [UInt8.toNat_ofNat']
    omega
  rw [encode, List.flatMap_cons, ← encode, encodeByte, isByte,
    show (16 * high + low) / 16 = high by omega,
    show (16 * high + low) % 16 = low by omega]
  rfl

/-- Digits in lower case, two for each byte, are those of a byte string. -/
theorem exists_encode :
    ∀ {characters : List Char}, characters.length % 2 = 0 →
      (∀ character ∈ characters, IsLowerDigit character) →
        ∃ bytes, encode bytes = characters
  | [], _, _ => ⟨[], rfl⟩
  | [_], even, _ => absurd even (by simp)
  | first :: second :: rest, even, digits => by
      have evenRest : rest.length % 2 = 0 := by
        simp only [List.length_cons] at even
        omega
      obtain ⟨bytes, isRest⟩ := exists_encode evenRest fun character member =>
        digits character
          (List.mem_cons_of_mem _ (List.mem_cons_of_mem _ member))
      obtain ⟨high, highSmall, isFirst⟩ :=
        digit_of_isLowerDigit (digits first List.mem_cons_self)
      obtain ⟨low, lowSmall, isSecond⟩ :=
        digit_of_isLowerDigit
          (digits second (List.mem_cons_of_mem _ List.mem_cons_self))
      refine ⟨UInt8.ofNat (16 * high + low) :: bytes, ?_⟩
      rw [encode_cons highSmall lowSmall, isRest, isFirst, isSecond]

/-! ## Digits in either case -/

/-- Whether a character is a hexadecimal digit in either case. -/
def IsDigit (character : Char) : Prop :=
  IsLowerDigit character ∨ 'A' ≤ character ∧ character ≤ 'F'

theorem isDigit_iff_exists {character : Char} :
    IsDigit character ↔ ∃ value, digit? character = some value := by
  unfold IsDigit IsLowerDigit digit?
  by_cases decimal : '0' ≤ character ∧ character ≤ '9'
  · simp [decimal]
  by_cases lower : 'a' ≤ character ∧ character ≤ 'f'
  · simp [decimal, lower]
  by_cases upper : 'A' ≤ character ∧ character ≤ 'F'
  · simp [decimal, lower, upper]
  · simp [decimal, lower, upper]

/-- No other characters are digits than those with small codes. -/
theorem toNat_lt_of_isDigit {character : Char} (isDigit : IsDigit character) :
    character.toNat < 128 := by
  rcases isDigit with (⟨_, toNine⟩ | ⟨_, tof⟩) | ⟨_, toF⟩
  · exact Nat.lt_of_le_of_lt toNine (by decide)
  · exact Nat.lt_of_le_of_lt tof (by decide)
  · exact Nat.lt_of_le_of_lt toF (by decide)

theorem toNat_lt_of_toLower {character : Char}
    (isDigit : IsLowerDigit character.toLower) : character.toNat < 128 := by
  unfold Char.toLower at isDigit
  split at isDigit
  · rename_i upper
    exact Nat.lt_of_le_of_lt upper.2 (by decide)
  · exact toNat_lt_of_isDigit (Or.inl isDigit)

/-- All digits are among the first characters, which can be looked through. -/
theorem digit?_iff_of_small :
    ∀ character : Char, character.toNat < 128 →
      (∀ value ∈ digit? character, value < 16) ∧
        ∀ value < 16,
          digit? character = some value ↔ digit value = character.toLower := by
  have all :
      ∀ code < 128,
        (∀ value ∈ digit? (Char.ofNat code), value < 16) ∧
          ∀ value < 16,
            digit? (Char.ofNat code) = some value ↔
              digit value = (Char.ofNat code).toLower := by
    decide +kernel
  intro character isSmall
  have ofCode := all character.toNat isSmall
  rwa [Char.ofNat_toNat] at ofCode

/-- The value of a digit is that of its lower case. -/
theorem digit?_eq_some_iff {character : Char} {value : Nat} :
    digit? character = some value ↔
      value < 16 ∧ digit value = character.toLower := by
  constructor
  · intro isValue
    have isSmall :=
      toNat_lt_of_isDigit (isDigit_iff_exists.mpr ⟨value, isValue⟩)
    obtain ⟨bounded, isLower⟩ := digit?_iff_of_small character isSmall
    have small := bounded value isValue
    exact ⟨small, (isLower value small).mp isValue⟩
  · rintro ⟨small, isLower⟩
    have isSmall := toNat_lt_of_toLower (isLower ▸ isLowerDigit_digit small)
    exact ((digit?_iff_of_small character isSmall).2 value small).mpr isLower

theorem isDigit_iff {character : Char} :
    IsDigit character ↔ IsLowerDigit character.toLower := by
  simp only [isDigit_iff_exists, digit?_eq_some_iff]
  constructor
  · rintro ⟨value, small, isLower⟩
    exact isLower ▸ isLowerDigit_digit small
  · exact digit_of_isLowerDigit

/-! ## What is decoded -/

/-- Digits are decoded as the bytes whose digits they are, apart from the
case. -/
theorem decodeFrom_eq_ok_iff :
    ∀ {position : Nat} {characters : List Char} {bytes : List UInt8},
      decodeFrom position characters = .ok bytes ↔
        encode bytes = characters.map Char.toLower
  | _, [], bytes => by
      cases bytes with
      | nil => exact ⟨fun _ => rfl, fun _ => rfl⟩
      | cons byte rest => simp [decodeFrom, encode, encodeByte]
  | _, [_], bytes => by
      cases bytes with
      | nil => simp [decodeFrom, encode]
      | cons byte rest => simp [decodeFrom, encode, encodeByte]
  | position, high :: low :: rest, bytes => by
      constructor
      · intro decoded
        rw [decodeFrom] at decoded
        split at decoded
        · cases decoded
        rename_i highValue isHigh
        split at decoded
        · cases decoded
        rename_i lowValue isLow
        split at decoded
        · cases decoded
        rename_i others isRest
        cases decoded
        obtain ⟨highSmall, highDigit⟩ := digit?_eq_some_iff.mp isHigh
        obtain ⟨lowSmall, lowDigit⟩ := digit?_eq_some_iff.mp isLow
        rw [encode_cons highSmall lowSmall, highDigit, lowDigit,
          decodeFrom_eq_ok_iff.mp isRest]
        rfl
      · intro encoded
        cases bytes with
        | nil => cases encoded
        | cons byte others =>
            have bound := byte.toNat_lt
            have whole :
                16 * (byte.toNat / 16) + byte.toNat % 16 = byte.toNat := by
              omega
            obtain ⟨highDigit, more⟩ := List.cons.inj encoded
            obtain ⟨lowDigit, isRest⟩ := List.cons.inj more
            have isHigh :=
              digit?_eq_some_iff.mpr
                ⟨show byte.toNat / 16 < 16 by omega, highDigit⟩
            have isLow :=
              digit?_eq_some_iff.mpr
                ⟨show byte.toNat % 16 < 16 by omega, lowDigit⟩
            have decoded :=
              @decodeFrom_eq_ok_iff (position + 2) rest others |>.mpr isRest
            simp only [decodeFrom, isHigh, isLow, decoded, whole,
              UInt8.ofNat_toNat]

theorem toNat_lt_of_encode {bytes : List UInt8} {characters : List Char}
    (encoded : encode bytes = characters.map Char.toLower) :
    ∀ character ∈ characters, character.toNat < 128 := by
  intro character member
  refine toNat_lt_of_toLower (@isLowerDigit_of_mem_encode bytes _ ?_)
  rw [encoded]
  exact List.mem_map_of_mem member

theorem byteLength_of_small {characters : List Char}
    (small : ∀ character ∈ characters, character.toNat < 128) :
    byteLength characters = characters.length := by
  induction characters with
  | nil => rfl
  | cons first rest inductionHypothesis =>
      have atMost : first.val ≤ 0x7F := by
        have below : first.toNat < 128 := small first List.mem_cons_self
        exact Nat.le_of_lt_succ below
      have single : first.utf8Size = 1 := by
        rw [Char.utf8Size]
        exact if_pos atMost
      have others := inductionHypothesis fun character member =>
        small character (List.mem_cons_of_mem _ member)
      have whole :
          byteLength (first :: rest) = first.utf8Size + byteLength rest := rfl
      rw [whole, single, others, List.length_cons, Nat.add_comm]

/-- A text is read as the bytes whose digits it has, apart from the case. -/
theorem decode_eq_ok_iff {characters : List Char} {bytes : List UInt8} :
    decode characters = .ok bytes ↔
      encode bytes = characters.map Char.toLower := by
  rw [← @decodeFrom_eq_ok_iff 0, decode]
  split
  · rename_i odd
    simp only [reduceCtorEq, false_iff]
    intro decoded
    have encoded := decodeFrom_eq_ok_iff.mp decoded
    have length := congrArg List.length encoded
    rw [byteLength_of_small (toNat_lt_of_encode encoded)] at odd
    rw [length_encode, List.length_map] at length
    omega
  · rfl

/-- The digits of a byte string are read as the byte string. -/
theorem decode_encode (bytes : List UInt8) :
    decode (encode bytes) = .ok bytes := by
  refine decode_eq_ok_iff.mpr (Eq.symm ?_)
  exact map_toLower_of_isLowerDigit fun _ => isLowerDigit_of_mem_encode

end TraceArchive.Text.Hex
