import TraceArchive.Text.Utf8

/-!
# Characters and their bytes

The bytes of a text are read as its characters again, whatever follows them:
`symbols_encode`. The order of texts by their characters is that by their bytes:
`encode_lt_encode_iff`.
-/

namespace TraceArchive.Text.Utf8

theorem toNat_ofNat_of_lt (number : Nat) (small : number < 256) :
    (UInt8.ofNat number).toNat = number := by
  rw [UInt8.toNat_ofNat']
  exact Nat.mod_eq_of_lt small

theorem ofNat_congr {number code : Nat} (equal : number = code) :
    Char.ofNat number = Char.ofNat code :=
  congrArg Char.ofNat equal

/-- A character has one byte at least and four at most. -/
theorem length_encode_bounds (characters : List Char) :
    characters.length ≤ (encode characters).length ∧
      (encode characters).length ≤ 4 * characters.length := by
  induction characters with
  | nil => exact ⟨Nat.le_refl 0, Nat.le_refl 0⟩
  | cons character rest inductionHypothesis =>
      have least := character.utf8Size_pos
      have most := character.utf8Size_le_four
      have whole :
          (encode (character :: rest)).length =
            character.utf8Size + (encode rest).length := by
        rw [encode, List.flatMap_cons, List.length_append,
          String.length_utf8EncodeChar, encode]
      rw [whole, List.length_cons]
      omega

/-! ## One character -/

section Character

variable {code : Nat} (rest : List UInt8)

theorem leading?_one (small : code ≤ 0x7F) :
    leading? (UInt8.ofNat code :: rest) = some (Char.ofNat code, 0) := by
  have first := toNat_ofNat_of_lt code (by omega)
  have isFirst : code < 128 := by omega
  simp [leading?, UInt8.lt_iff_toNat_lt, first, isFirst, one]

theorem leading?_two (above : 0x7F < code) (small : code ≤ 0x7FF) :
    leading?
        (UInt8.ofNat (code / 64 % 0x20 + 0xC0) ::
          UInt8.ofNat (code % 0x40 + 0x80) :: rest) =
      some (Char.ofNat code, 1) := by
  have first :=
    toNat_ofNat_of_lt (code / 64 % 0x20 + 0xC0) (by omega)
  have second := toNat_ofNat_of_lt (code % 0x40 + 0x80) (by omega)
  have notOne : ¬ code / 64 % 0x20 + 0xC0 < 128 := by omega
  have isFirst :
      194 ≤ code / 64 % 0x20 + 0xC0 ∧ code / 64 % 0x20 + 0xC0 ≤ 223 := by
    omega
  have isSecond :
      128 ≤ code % 0x40 + 0x80 ∧ code % 0x40 + 0x80 ≤ 191 := by
    omega
  simp only [leading?, UInt8.lt_iff_toNat_lt, UInt8.le_iff_toNat_le,
    isContinuation, first, second, UInt8.reduceToNat, notOne, isFirst,
    isSecond, if_false, decide_true, Bool.and_self, if_true, two,
    lowBits]
  exact congrArg (fun character => some (character, 1))
    (ofNat_congr (by omega))

theorem leading?_three
    (above : 0x7FF < code) (small : code ≤ 0xFFFF)
    (noSurrogate : code < 0xD800 ∨ 0xDFFF < code) :
    leading?
        (UInt8.ofNat (code / 4096 % 0x10 + 0xE0) ::
          UInt8.ofNat (code / 64 % 0x40 + 0x80) ::
            UInt8.ofNat (code % 0x40 + 0x80) :: rest) =
      some (Char.ofNat code, 2) := by
  have first :=
    toNat_ofNat_of_lt (code / 4096 % 0x10 + 0xE0) (by omega)
  have second :=
    toNat_ofNat_of_lt (code / 64 % 0x40 + 0x80) (by omega)
  have third := toNat_ofNat_of_lt (code % 0x40 + 0x80) (by omega)
  have fits :
      fitsThree (UInt8.ofNat (code / 4096 % 0x10 + 0xE0))
        (UInt8.ofNat (code / 64 % 0x40 + 0x80)) = true := by
    simp only [fitsThree, beq_iff_eq, ← UInt8.toNat_inj, first, second,
      isContinuation, UInt8.le_iff_toNat_le, UInt8.reduceToNat]
    split
    · simp only [Bool.and_eq_true, decide_eq_true_eq]
      omega
    · split <;> simp only [Bool.and_eq_true, decide_eq_true_eq] <;> omega
  have notOne : ¬ code / 4096 % 0x10 + 0xE0 < 128 := by omega
  have notTwo : ¬ (code / 4096 % 0x10 + 0xE0 ≤ 223) := by omega
  have isFirst :
      224 ≤ code / 4096 % 0x10 + 0xE0 ∧
        code / 4096 % 0x10 + 0xE0 ≤ 239 := by
    omega
  have isThird :
      128 ≤ code % 0x40 + 0x80 ∧ code % 0x40 + 0x80 ≤ 191 := by
    omega
  simp only [leading?, fits, UInt8.lt_iff_toNat_lt, UInt8.le_iff_toNat_le,
    isContinuation, first, second, third, UInt8.reduceToNat, notOne, notTwo,
    isFirst, isThird, if_false, decide_true, decide_false,
    Bool.and_self, Bool.and_false, Bool.false_eq_true, if_true, three, lowBits]
  exact congrArg (fun character => some (character, 2))
    (ofNat_congr (by omega))

theorem leading?_four (above : 0xFFFF < code) (small : code < 0x110000) :
    leading?
        (UInt8.ofNat (code / 262144 % 0x08 + 0xF0) ::
          UInt8.ofNat (code / 4096 % 0x40 + 0x80) ::
            UInt8.ofNat (code / 64 % 0x40 + 0x80) ::
              UInt8.ofNat (code % 0x40 + 0x80) :: rest) =
      some (Char.ofNat code, 3) := by
  have first :=
    toNat_ofNat_of_lt (code / 262144 % 0x08 + 0xF0) (by omega)
  have second :=
    toNat_ofNat_of_lt (code / 4096 % 0x40 + 0x80) (by omega)
  have third :=
    toNat_ofNat_of_lt (code / 64 % 0x40 + 0x80) (by omega)
  have fourth := toNat_ofNat_of_lt (code % 0x40 + 0x80) (by omega)
  have fits :
      fitsFour (UInt8.ofNat (code / 262144 % 0x08 + 0xF0))
        (UInt8.ofNat (code / 4096 % 0x40 + 0x80)) = true := by
    simp only [fitsFour, beq_iff_eq, ← UInt8.toNat_inj, first, second,
      isContinuation, UInt8.le_iff_toNat_le, UInt8.reduceToNat]
    split
    · simp only [Bool.and_eq_true, decide_eq_true_eq]
      omega
    · split <;> simp only [Bool.and_eq_true, decide_eq_true_eq] <;> omega
  have notOne : ¬ code / 262144 % 0x08 + 0xF0 < 128 := by omega
  have notTwo : ¬ (code / 262144 % 0x08 + 0xF0 ≤ 223) := by omega
  have notThree : ¬ (code / 262144 % 0x08 + 0xF0 ≤ 239) := by omega
  have isFirst :
      240 ≤ code / 262144 % 0x08 + 0xF0 ∧
        code / 262144 % 0x08 + 0xF0 ≤ 244 := by
    omega
  have isThird :
      128 ≤ code / 64 % 0x40 + 0x80 ∧ code / 64 % 0x40 + 0x80 ≤ 191 := by
    omega
  have isFourth :
      128 ≤ code % 0x40 + 0x80 ∧ code % 0x40 + 0x80 ≤ 191 := by
    omega
  simp only [leading?, fits, UInt8.lt_iff_toNat_lt, UInt8.le_iff_toNat_le,
    isContinuation, first, second, third, fourth, UInt8.reduceToNat, notOne,
    notTwo, notThree, isFirst, isThird, isFourth, if_false,
    decide_true, decide_false, Bool.and_self, Bool.and_false,
    Bool.false_eq_true, if_true, four, lowBits]
  exact congrArg (fun character => some (character, 3))
    (ofNat_congr (by omega))

end Character

/-- The first byte of a character tells how many follow it, and together they
are read as the character. -/
theorem leading?_encodeChar (character : Char) (rest : List UInt8) :
    ∃ first others,
      String.utf8EncodeChar character = first :: others ∧
        leading? (first :: (others ++ rest)) =
          some (character, others.length) := by
  have valid :
      character.val.toNat < 0xD800 ∨
        0xDFFF < character.val.toNat ∧ character.val.toNat < 0x110000 :=
    character.valid
  have whole : Char.ofNat character.val.toNat = character :=
    Char.ofNat_toNat character
  unfold String.utf8EncodeChar
  generalize character.val.toNat = code at valid whole
  subst whole
  dsimp only
  split
  · exact ⟨_, _, rfl, leading?_one rest (by assumption)⟩
  · split
    · exact ⟨_, _, rfl, leading?_two rest (by omega) (by assumption)⟩
    · split
      · exact ⟨_, _, rfl,
          leading?_three rest (by omega) (by assumption) (by omega)⟩
      · exact ⟨_, _, rfl, leading?_four rest (by omega) (by omega)⟩

/-! ## Texts -/

theorem symbolsAfter_append (taken rest : List UInt8) :
    symbolsAfter taken.length (taken ++ rest) = symbolsAfter 0 rest := by
  induction taken with
  | nil => rfl
  | cons byte others inductionHypothesis =>
      rw [List.length_cons, List.cons_append, symbolsAfter]
      exact inductionHypothesis

/-- A text is read off its bytes. -/
theorem symbols_encode_append (characters : List Char) (rest : List UInt8) :
    symbols (encode characters ++ rest) =
      characters.map some ++ symbols rest := by
  induction characters with
  | nil => rfl
  | cons character others inductionHypothesis =>
      obtain ⟨first, following, bytes, read⟩ :=
        leading?_encodeChar character (encode others ++ rest)
      have whole :
          encode (character :: others) ++ rest =
            first :: (following ++ (encode others ++ rest)) := by
        rw [encode, List.flatMap_cons, bytes, ← encode]
        simp
      rw [whole, symbols, symbolsAfter, read]
      dsimp only
      rw [symbolsAfter_append]
      exact congrArg (some character :: ·) inductionHypothesis

theorem symbols_encode (characters : List Char) :
    symbols (encode characters) = characters.map some := by
  have read := symbols_encode_append characters []
  simpa [symbols, symbolsAfter] using read

theorem characters?_map_some (characters : List Char) :
    characters? (characters.map some) = some characters := by
  induction characters with
  | nil => rfl
  | cons character others inductionHypothesis =>
      simp [characters?, inductionHypothesis]

/-- The bytes of a text encode that text. -/
theorem decode?_encode (text : String) :
    decode? (encode text.toList) = some text := by
  rw [decode?, symbols_encode, characters?_map_some, Option.map_some,
    String.ofList_toList]

/-! ## The order of texts -/

theorem cons_lt_cons
    {first second : Nat} {left right : List UInt8} (isFirst : first < 256)
    (isSecond : second < 256)
    (less : first < second ∨ first = second ∧ left < right) :
    UInt8.ofNat first :: left < UInt8.ofNat second :: right := by
  rw [List.cons_lt_cons_iff, UInt8.ofNat_lt_iff_lt isFirst isSecond]
  exact less.imp_right (And.imp_left (congrArg UInt8.ofNat))

section Pair

variable {code other : Nat} (less : code < other) (left right : List UInt8)

include less

/-- Two bytes are compared like the two digits that they hold. -/
theorem lt_of_two (above : 0x7F < code) (small : other ≤ 0x7FF) :
    UInt8.ofNat (code / 64 % 32 + 192) ::
        UInt8.ofNat (code % 64 + 128) :: left <
      UInt8.ofNat (other / 64 % 32 + 192) ::
        UInt8.ofNat (other % 64 + 128) :: right := by
  refine cons_lt_cons (by omega) (by omega) ?_
  by_cases high : code / 64 < other / 64
  · exact Or.inl (by omega)
  · refine Or.inr ⟨by omega, cons_lt_cons (by omega) (by omega) ?_⟩
    exact Or.inl (by omega)

/-- Three bytes are compared like the three digits that they hold. -/
theorem lt_of_three (above : 0x7FF < code) (small : other ≤ 0xFFFF) :
    UInt8.ofNat (code / 4096 % 16 + 224) ::
        UInt8.ofNat (code / 64 % 64 + 128) ::
          UInt8.ofNat (code % 64 + 128) :: left <
      UInt8.ofNat (other / 4096 % 16 + 224) ::
        UInt8.ofNat (other / 64 % 64 + 128) ::
          UInt8.ofNat (other % 64 + 128) :: right := by
  refine cons_lt_cons (by omega) (by omega) ?_
  by_cases high : code / 4096 < other / 4096
  · exact Or.inl (by omega)
  · refine Or.inr ⟨by omega, cons_lt_cons (by omega) (by omega) ?_⟩
    by_cases middle : code / 64 < other / 64
    · exact Or.inl (by omega)
    · refine Or.inr ⟨by omega, cons_lt_cons (by omega) (by omega) ?_⟩
      exact Or.inl (by omega)

/-- Four bytes are compared like the four digits that they hold. -/
theorem lt_of_four (above : 0xFFFF < code) (small : other < 0x110000) :
    UInt8.ofNat (code / 262144 % 8 + 240) ::
        UInt8.ofNat (code / 4096 % 64 + 128) ::
          UInt8.ofNat (code / 64 % 64 + 128) ::
            UInt8.ofNat (code % 64 + 128) :: left <
      UInt8.ofNat (other / 262144 % 8 + 240) ::
        UInt8.ofNat (other / 4096 % 64 + 128) ::
          UInt8.ofNat (other / 64 % 64 + 128) ::
            UInt8.ofNat (other % 64 + 128) :: right := by
  refine cons_lt_cons (by omega) (by omega) ?_
  by_cases highest : code / 262144 < other / 262144
  · exact Or.inl (by omega)
  · refine Or.inr ⟨by omega, cons_lt_cons (by omega) (by omega) ?_⟩
    by_cases high : code / 4096 < other / 4096
    · exact Or.inl (by omega)
    · refine Or.inr ⟨by omega, cons_lt_cons (by omega) (by omega) ?_⟩
      by_cases middle : code / 64 < other / 64
      · exact Or.inl (by omega)
      · refine Or.inr ⟨by omega, cons_lt_cons (by omega) (by omega) ?_⟩
        exact Or.inl (by omega)

end Pair

/-- The bytes of a lesser character come first, whatever follows. A character of
more bytes has a greater first byte. -/
theorem encodeChar_lt
    {first second : Char} (less : first < second) (left right : List UInt8) :
    String.utf8EncodeChar first ++ left <
      String.utf8EncodeChar second ++ right := by
  have isLess : first.val.toNat < second.val.toNat :=
    UInt32.lt_iff_toNat_lt.mp (Char.lt_def.mp less)
  have valid :
      second.val.toNat < 0xD800 ∨
        0xDFFF < second.val.toNat ∧ second.val.toNat < 0x110000 :=
    second.valid
  unfold String.utf8EncodeChar
  generalize first.val.toNat = code at isLess
  generalize second.val.toNat = other at isLess valid
  dsimp only
  by_cases one : other ≤ 0x7F
  · rw [if_pos one, if_pos (by omega)]
    exact cons_lt_cons (by omega) (by omega) (Or.inl isLess)
  rw [if_neg one]
  by_cases two : other ≤ 0x7FF
  · rw [if_pos two]
    by_cases ofOne : code ≤ 0x7F
    · rw [if_pos ofOne]
      exact cons_lt_cons (by omega) (by omega) (Or.inl (by omega))
    · rw [if_neg ofOne, if_pos (by omega)]
      exact lt_of_two isLess left right (by omega) two
  rw [if_neg two]
  by_cases three : other ≤ 0xFFFF
  · rw [if_pos three]
    by_cases ofOne : code ≤ 0x7F
    · rw [if_pos ofOne]
      exact cons_lt_cons (by omega) (by omega) (Or.inl (by omega))
    rw [if_neg ofOne]
    by_cases ofTwo : code ≤ 0x7FF
    · rw [if_pos ofTwo]
      exact cons_lt_cons (by omega) (by omega) (Or.inl (by omega))
    · rw [if_neg ofTwo, if_pos (by omega)]
      exact lt_of_three isLess left right (by omega) three
  rw [if_neg three]
  by_cases ofOne : code ≤ 0x7F
  · rw [if_pos ofOne]
    exact cons_lt_cons (by omega) (by omega) (Or.inl (by omega))
  rw [if_neg ofOne]
  by_cases ofTwo : code ≤ 0x7FF
  · rw [if_pos ofTwo]
    exact cons_lt_cons (by omega) (by omega) (Or.inl (by omega))
  rw [if_neg ofTwo]
  by_cases ofThree : code ≤ 0xFFFF
  · rw [if_pos ofThree]
    exact cons_lt_cons (by omega) (by omega) (Or.inl (by omega))
  · rw [if_neg ofThree]
    exact lt_of_four isLess left right (by omega) (by omega)

theorem encode_lt_encode
    {left right : List Char} (less : left < right) :
    encode left < encode right := by
  induction left generalizing right with
  | nil =>
      cases right with
      | nil => exact absurd less (List.lt_irrefl [])
      | cons character rest =>
          obtain ⟨first, others, bytes, _⟩ := leading?_encodeChar character []
          rw [encode, encode, List.flatMap_cons, bytes]
          exact List.nil_lt_cons _ _
  | cons character rest inductionHypothesis =>
      cases right with
      | nil => exact absurd less (List.not_lt_nil _)
      | cons other others =>
          rw [encode, encode, List.flatMap_cons, List.flatMap_cons]
          rcases List.cons_lt_cons_iff.mp less with first | ⟨rfl, later⟩
          · exact encodeChar_lt first _ _
          · exact List.append_left_lt (inductionHypothesis later)

/-- The order of texts is the order of their bytes. -/
theorem encode_lt_encode_iff {left right : String} :
    encode left.toList < encode right.toList ↔ left < right := by
  constructor
  · intro bytesLess
    rcases Std.lt_trichotomy left right with less | rfl | greater
    · exact less
    · exact absurd bytesLess (List.lt_irrefl _)
    · exact absurd bytesLess (List.lt_asymm (encode_lt_encode greater))
  · exact encode_lt_encode

end TraceArchive.Text.Utf8
