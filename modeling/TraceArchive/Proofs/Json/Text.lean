import TraceArchive.Json.Reader
import TraceArchive.Proofs.Json.Number
import TraceArchive.Proofs.Text.Utf8

/-!
# Written text is read as its document

The text of every value is read as the document that repeats the value; a
number that is not finite is repeated as `null`. The main statement is
`Json.ofSymbols_characters`.
-/

namespace TraceArchive.Json

open Text.Utf8 (Symbol)

/-! ## Quoted texts -/

/-- A unit of a quoted text that stands for a character by itself. -/
inductive Piece.StandsFor : Piece → Char → Prop where
  | character (value : Char) : Piece.StandsFor (.character value) value
  | unit (value : Char) (control : value.toNat < 0x20) :
      Piece.StandsFor (.unit value.toNat) value

theorem unit?_of_control :
    ∀ code < 0x20,
      unit? '0' '0' (Text.Hex.digit (code / 16)) (Text.Hex.digit (code % 16)) =
        some code := by
  decide

theorem pieces?_of_letter
    {letter character : Char} (isEscape : escape? letter = some character)
    (notUnit : letter ≠ 'u') (following : List Symbol) :
    pieces? (some '\\' :: some letter :: following) =
      (pieces? following).map fun read =>
        (.character character :: read.1, read.2) := by
  rw [pieces?.eq_def]
  split
  all_goals simp_all
  · cases pieces? _ <;> rfl
  · rename_i others isBackslash
    exact absurd isBackslash.1.symm (others letter following isBackslash.2.symm)

theorem pieces?_of_plain
    {character : Char} (notQuote : character ≠ '"')
    (notBackslash : character ≠ '\\') (notControl : ¬ character.toNat < 0x20)
    (following : List Symbol) :
    pieces? (some character :: following) =
      (pieces? following).map fun read =>
        (.character character :: read.1, read.2) := by
  rw [pieces?.eq_def]
  split
  all_goals simp_all
  rw [if_neg (by simp [notControl])]
  cases pieces? _ <;> rfl

theorem pieces?_of_unit
    {character : Char} (control : character.toNat < 0x20)
    (following : List Symbol) :
    pieces?
        ((['\\', 'u', '0', '0'] ++
          Text.Hex.encodeByte (UInt8.ofNat character.toNat)).map some ++
            following) =
      (pieces? following).map fun read =>
        (.unit character.toNat :: read.1, read.2) := by
  have isUnit := unit?_of_control character.toNat control
  have isByte :=
    Text.Utf8.toNat_ofNat_of_lt character.toNat (by omega)
  simp only [Text.Hex.encodeByte, isByte, List.cons_append, List.nil_append,
    List.map_cons, List.map_nil, pieces?, isUnit]
  cases pieces? following <;> rfl

theorem stands_of_escape
    {character : Char} (letter : Char)
    (isEscape : escape? letter = some character) (notUnit : letter ≠ 'u')
    (isEscaped : escaped character = ['\\', letter]) :
    ∃ piece : Piece, piece.StandsFor character ∧
      ∀ following,
        pieces? ((escaped character).map some ++ following) =
          (pieces? following).map fun read => (piece :: read.1, read.2) := by
  refine ⟨.character character, .character character, fun following => ?_⟩
  rw [isEscaped]
  exact pieces?_of_letter isEscape notUnit following

/-- The text of an escaped character is read as one piece. -/
theorem stands_of_escaped (character : Char) :
    ∃ piece : Piece, piece.StandsFor character ∧
      ∀ following,
        pieces? ((escaped character).map some ++ following) =
          (pieces? following).map fun read => (piece :: read.1, read.2) := by
  by_cases isQuote : character = '"'
  · subst isQuote
    exact stands_of_escape '"' rfl (by decide) rfl
  by_cases isBackslash : character = '\\'
  · subst isBackslash
    exact stands_of_escape '\\' rfl (by decide) rfl
  by_cases isNewline : character = '\n'
  · subst isNewline
    exact stands_of_escape 'n' rfl (by decide) rfl
  by_cases isReturn : character = '\r'
  · subst isReturn
    exact stands_of_escape 'r' rfl (by decide) rfl
  by_cases isTab : character = '\t'
  · subst isTab
    exact stands_of_escape 't' rfl (by decide) rfl
  by_cases isBackspace : character.toNat = 0x08
  · have isCharacter : character = Char.ofNat 0x08 := by
      rw [← isBackspace, Char.ofNat_toNat]
    subst isCharacter
    exact stands_of_escape 'b' rfl (by decide) rfl
  by_cases isFormFeed : character.toNat = 0x0C
  · have isCharacter : character = Char.ofNat 0x0C := by
      rw [← isFormFeed, Char.ofNat_toNat]
    subst isCharacter
    exact stands_of_escape 'f' rfl (by decide) rfl
  by_cases isControl : character.toNat < 0x20
  · refine ⟨.unit character.toNat, .unit character isControl, ?_⟩
    intro following
    simp only [escaped, isQuote, isBackslash, isNewline, isReturn, isTab,
      isBackspace, isFormFeed, isControl, if_false, if_true]
    exact pieces?_of_unit isControl following
  · refine ⟨.character character, .character character, ?_⟩
    intro following
    simp only [escaped, isQuote, isBackslash, isNewline, isReturn, isTab,
      isBackspace, isFormFeed, isControl, if_false]
    exact pieces?_of_plain isQuote isBackslash isControl following

theorem pieces?_flatMap (characters : List Char) (following : List Symbol) :
    ∃ pieces : List Piece,
      List.Forall₂ Piece.StandsFor pieces characters ∧
        pieces?
            ((characters.flatMap escaped).map some ++ some '"' :: following) =
          some (pieces, following) := by
  induction characters with
  | nil => exact ⟨[], .nil, by simp [pieces?]⟩
  | cons character rest inductionHypothesis =>
      obtain ⟨pieces, stand, read⟩ := inductionHypothesis
      obtain ⟨piece, standsFirst, readFirst⟩ := stands_of_escaped character
      refine ⟨piece :: pieces, .cons standsFirst stand, ?_⟩
      rw [List.flatMap_cons, List.map_append, List.append_assoc, readFirst,
        read]
      rfl

theorem charactersOf?_unit
    {character : Char} (control : character.toNat < 0x20)
    {rest : List Piece} {characters : List Char}
    (read : charactersOf? rest = some characters) :
    charactersOf? (.unit character.toNat :: rest) =
      some (character :: characters) := by
  have isCharacter : Char.ofNat character.toNat = character :=
    Char.ofNat_toNat character
  generalize character.toNat = code at control isCharacter
  have noHigh : isHighSurrogate code = false := by
    simp only [isHighSurrogate, Bool.and_eq_false_iff,
      decide_eq_false_iff_not]
    omega
  have noLow : isLowSurrogate code = false := by
    simp only [isLowSurrogate, Bool.and_eq_false_iff,
      decide_eq_false_iff_not]
    omega
  rw [charactersOf?.eq_def]
  split
  all_goals simp_all

theorem charactersOf?_of_standsFor
    {pieces : List Piece} {characters : List Char}
    (stand : List.Forall₂ Piece.StandsFor pieces characters) :
    charactersOf? pieces = some characters := by
  induction stand with
  | nil => rfl
  | cons first _ inductionHypothesis =>
      cases first with
      | character value => simp [charactersOf?, inductionHypothesis]
      | unit value control =>
          exact charactersOf?_unit control inductionHypothesis

/-- A quoted text is read as the text. -/
theorem readQuoted_quoted (text : String) (following : List Symbol) :
    readQuoted
        ((text.toList.flatMap escaped).map some ++ some '"' :: following) =
      some (some text, following) := by
  obtain ⟨pieces, stand, read⟩ := pieces?_flatMap text.toList following
  have isText := charactersOf?_of_standsFor stand
  simp [readQuoted, read, isText]

/-! ## The document of a value -/

/-- The document of a number; what is not finite is written as `null`. -/
def Number.document (number : Number) : Document :=
  if number.isFinite then .number number.numeral else .null

mutual

/-- The document that the text of a value is read as. -/
def document : Json → Document
  | .null => .null
  | .boolean value => .boolean value
  | .number value => value.document
  | .string value => .string (some value)
  | .list items => .list (itemDocuments items)
  | .object entries => .object (entryDocuments entries)

/-- The documents of the items of a list. -/
def itemDocuments : List Json → List Document
  | [] => []
  | item :: rest => document item :: itemDocuments rest

/-- The documents of the entries of an object. -/
def entryDocuments :
    List (String × Json) → List (Option String × Document)
  | [] => []
  | (key, value) :: rest =>
      (some key, document value) :: entryDocuments rest

end

/-! ## Reading the text of a value -/

theorem skipBlanks_of_plain
    {first : Symbol} (plain : isSeparator first = false) (rest : List Symbol) :
    skipBlanks (first :: rest) = first :: rest := by
  simp [skipBlanks, plain]

/-- A number starts with a digit or its sign. -/
theorem Numeral.IsRegular.text_eq_cons
    {numeral : Numeral} (regular : numeral.IsRegular) :
    ∃ first rest, numeral.text = first :: rest ∧
      (first.isDigit = true ∨ first = '-') := by
  cases whole : numeral.whole with
  | nil => exact absurd whole regular.whole_some
  | cons digit others =>
      have isDigit : digit.isDigit = true :=
        regular.whole_digits digit (whole ▸ List.mem_cons_self)
      cases isNegative : numeral.negative with
      | true => exact ⟨'-', _, by simp [text, isNegative]; rfl, .inr rfl⟩
      | false =>
          exact ⟨digit, _, by simp [text, isNegative, whole]; rfl,
            .inl isDigit⟩

section Number

variable {first : Char} (isFirst : first.isDigit = true ∨ first = '-')

include isFirst

theorem ne_of_startsNumber
    {character : Char} (notDigit : character.isDigit = false)
    (notSign : character ≠ '-') : first ≠ character := by
  rintro rfl
  rcases isFirst with isDigit | isSign
  · rw [isDigit] at notDigit
    cases notDigit
  · exact notSign isSign

theorem isSeparator_of_startsNumber : isSeparator (some first) = false := by
  have other : ∀ character : Char, character.isDigit = false →
      character ≠ '-' → first ≠ character :=
    fun _ notDigit notSign => ne_of_startsNumber isFirst notDigit notSign
  have notSpace := other ' ' rfl (by decide)
  have notNewline := other '\n' rfl (by decide)
  have notTab := other '\t' rfl (by decide)
  have notReturn := other '\r' rfl (by decide)
  simp [isSeparator, notSpace, notNewline, notTab, notReturn]

end Number

theorem readValue_numeral
    {numeral : Numeral} (regular : numeral.IsRegular) (bound : Nat)
    {following : List Symbol} (ends : EndsNumber following) :
    readValue (bound + 1) (numeral.text.map some ++ following) =
      (.number numeral, following) := by
  have read := numeral?_text regular ends
  obtain ⟨first, rest, isText, isFirst⟩ := regular.text_eq_cons
  rw [isText, List.map_cons, List.cons_append] at read ⊢
  rw [readValue,
    skipBlanks_of_plain (isSeparator_of_startsNumber isFirst)]
  split
  all_goals rename_i isHead
  all_goals try
    exact absurd (Option.some.inj (List.cons.inj isHead).1)
      (ne_of_startsNumber isFirst rfl (by decide))
  rw [read]

theorem Number.characters_of_not_finite
    {number : Number} (infinite : number.isFinite = false) :
    number.characters = ['n', 'u', 'l', 'l'] := by
  cases number with
  | integer value inRange => cases infinite
  | double value =>
      have isInfinite : value.isFinite = false := infinite
      simp [characters, isInfinite]

theorem readValue_string
    (text : String) (bound : Nat) (following : List Symbol) :
    readValue (bound + 1) ((quoted text).map some ++ following) =
      (.string (some text), following) := by
  have read := readQuoted_quoted text following
  have isText :
      (quoted text).map some ++ following =
        some '"' ::
          ((text.toList.flatMap escaped).map some ++ some '"' :: following) := by
    simp [quoted]
  rw [isText, readValue, skipBlanks_of_plain rfl]
  simp only [read]

theorem readValue_word
    {value : Json} (bound : Nat) (following : List Symbol)
    (isWord : value = .null ∨ ∃ truth, value = .boolean truth) :
    readValue (bound + 1) (value.characters.map some ++ following) =
      (value.document, following) := by
  rcases isWord with rfl | ⟨_ | _, rfl⟩
  all_goals
    simp [characters, readValue, skipBlanks, isSeparator, after?, document]

theorem readValue_number
    (value : Number) (bound : Nat) {following : List Symbol}
    (ends : EndsNumber following) :
    readValue (bound + 1) (value.characters.map some ++ following) =
      (value.document, following) := by
  by_cases finite : value.isFinite = true
  · rw [← text_numeral finite, Number.document, if_pos finite]
    exact readValue_numeral (isRegular_numeral value) bound ends
  · have infinite : value.isFinite = false := Bool.not_eq_true _ ▸ finite
    rw [Number.characters_of_not_finite infinite, Number.document,
      if_neg finite]
    exact readValue_word bound following (.inl rfl)

/-- A value starts with something that is neither a blank nor a bracket at the
end. -/
theorem characters_eq_cons (value : Json) :
    ∃ first rest, value.characters = first :: rest ∧
      isSeparator (some first) = false ∧ first ≠ ']' := by
  cases value with
  | null => exact ⟨'n', _, rfl, rfl, by decide⟩
  | boolean truth => cases truth <;> exact ⟨_, _, rfl, rfl, by decide⟩
  | number value =>
      by_cases finite : value.isFinite = true
      · obtain ⟨first, rest, isText, isFirst⟩ :=
          (isRegular_numeral value).text_eq_cons
        refine ⟨first, rest, ?_, isSeparator_of_startsNumber isFirst,
          ne_of_startsNumber isFirst rfl (by decide)⟩
        rw [characters, ← text_numeral finite, isText]
      · have infinite : value.isFinite = false := Bool.not_eq_true _ ▸ finite
        exact ⟨'n', _, Number.characters_of_not_finite infinite, rfl,
          by decide⟩
  | string value => exact ⟨'"', _, rfl, rfl, by decide⟩
  | list items => exact ⟨'[', _, rfl, rfl, by decide⟩
  | object entries => exact ⟨'\x7b', _, rfl, rfl, by decide⟩

theorem endsNumber_cons
    {first : Char} (notDigit : first.isDigit = false)
    (other : first ≠ '.' ∧ first ≠ 'e' ∧ first ≠ 'E') (rest : List Symbol) :
    EndsNumber (some first :: rest) := by
  intro character isHead
  cases isHead
  exact ⟨notDigit, other⟩

theorem endsNumber_nil : EndsNumber [] := by
  intro character isHead
  cases isHead

theorem itemCharacters_eq_cons (item : Json) (rest : List Json) :
    ∃ first others, itemCharacters (item :: rest) = first :: others ∧
      isSeparator (some first) = false ∧ first ≠ ']' := by
  obtain ⟨first, others, isText, plain, notEnd⟩ := characters_eq_cons item
  cases rest with
  | nil => exact ⟨first, others, isText, plain, notEnd⟩
  | cons next rest =>
      refine ⟨first, others ++ ',' :: itemCharacters (next :: rest), ?_,
        plain, notEnd⟩
      rw [itemCharacters, isText, List.cons_append]

theorem entryCharacters_eq_cons
    (entry : String × Json) (rest : List (String × Json)) :
    ∃ others, entryCharacters (entry :: rest) = '"' :: others := by
  cases rest with
  | nil => exact ⟨_, rfl⟩
  | cons next rest => exact ⟨_, rfl⟩

theorem readValue_list
    {items : List Json} {bound : Nat} {following : List Symbol}
    (read :
      items ≠ [] →
        readItems bound
            ((itemCharacters items).map some ++ some ']' :: following) =
          (itemDocuments items, following)) :
    readValue (bound + 1)
        ((characters (.list items)).map some ++ following) =
      (document (.list items), following) := by
  have isText :
      (characters (.list items)).map some ++ following =
        some '[' ::
          ((itemCharacters items).map some ++ some ']' :: following) := by
    simp [characters]
  rw [isText, readValue, skipBlanks_of_plain rfl]
  cases items with
  | nil => simp [itemCharacters, skipBlanks, isSeparator, document,
      itemDocuments]
  | cons item rest =>
      have readAll := read (List.cons_ne_nil item rest)
      obtain ⟨first, others, isItem, plain, notEnd⟩ :=
        itemCharacters_eq_cons item rest
      rw [isItem, List.map_cons, List.cons_append] at readAll ⊢
      simp only [skipBlanks_of_plain plain]
      split
      · rename_i isEnd
        exact absurd (Option.some.inj (List.cons.inj isEnd).1) notEnd
      · simp only [readAll, document]

theorem readValue_object
    {entries : List (String × Json)} {bound : Nat} {following : List Symbol}
    (read :
      entries ≠ [] →
        readEntries bound
            ((entryCharacters entries).map some ++
              some '\x7d' :: following) =
          (entryDocuments entries, following)) :
    readValue (bound + 1)
        ((characters (.object entries)).map some ++ following) =
      (document (.object entries), following) := by
  have isText :
      (characters (.object entries)).map some ++ following =
        some '\x7b' ::
          ((entryCharacters entries).map some ++
            some '\x7d' :: following) := by
    simp [characters]
  rw [isText, readValue, skipBlanks_of_plain rfl]
  cases entries with
  | nil => simp [entryCharacters, skipBlanks, isSeparator, document,
      entryDocuments]
  | cons entry rest =>
      have readAll := read (List.cons_ne_nil entry rest)
      obtain ⟨others, isEntry⟩ := entryCharacters_eq_cons entry rest
      rw [isEntry, List.map_cons, List.cons_append] at readAll ⊢
      have plain : isSeparator (some '"') = false := rfl
      simp only [skipBlanks_of_plain plain]
      split
      · rename_i isEnd
        exact absurd (Option.some.inj (List.cons.inj isEnd).1) (by decide)
      · simp only [readAll, document]

theorem readItems_last
    {item : Json} {bound : Nat} {following : List Symbol}
    (read :
      readValue bound (item.characters.map some ++ some ']' :: following) =
        (item.document, some ']' :: following)) :
    readItems (bound + 1)
        ((itemCharacters [item]).map some ++ some ']' :: following) =
      (itemDocuments [item], following) := by
  have plain : isSeparator (some ']') = false := rfl
  simp only [itemCharacters, readItems, read, skipBlanks_of_plain plain,
    itemDocuments]

theorem readItems_cons
    {item next : Json} {rest : List Json} {bound : Nat}
    {following : List Symbol}
    (read :
      ∀ following,
        readValue bound (item.characters.map some ++ some ',' :: following) =
          (item.document, some ',' :: following))
    (readRest :
      readItems bound
          ((itemCharacters (next :: rest)).map some ++
            some ']' :: following) =
        (itemDocuments (next :: rest), following)) :
    readItems (bound + 1)
        ((itemCharacters (item :: next :: rest)).map some ++
          some ']' :: following) =
      (itemDocuments (item :: next :: rest), following) := by
  have plain : isSeparator (some ',') = false := rfl
  have isText :
      (itemCharacters (item :: next :: rest)).map some ++
          some ']' :: following =
        item.characters.map some ++
          some ',' ::
            ((itemCharacters (next :: rest)).map some ++
              some ']' :: following) := by
    simp [itemCharacters]
  rw [isText, readItems, read]
  simp only [skipBlanks_of_plain plain, readRest]
  rfl

theorem readEntries_last
    {key : String} {value : Json} {bound : Nat} {following : List Symbol}
    (read :
      readValue bound
          (value.characters.map some ++ some '\x7d' :: following) =
        (value.document, some '\x7d' :: following)) :
    readEntries (bound + 1)
        ((entryCharacters [(key, value)]).map some ++
          some '\x7d' :: following) =
      (entryDocuments [(key, value)], following) := by
  have isText :
      (entryCharacters [(key, value)]).map some ++ some '\x7d' :: following =
        some '"' ::
          ((key.toList.flatMap escaped).map some ++
            some '"' :: some ':' ::
              (value.characters.map some ++ some '\x7d' :: following)) := by
    simp [entryCharacters, quoted]
  have plainQuote : isSeparator (some '"') = false := rfl
  have plainColon : isSeparator (some ':') = false := rfl
  have plain : isSeparator (some '\x7d') = false := rfl
  rw [isText, readEntries]
  simp only [skipBlanks_of_plain plainQuote, readQuoted_quoted,
    skipBlanks_of_plain plainColon, read, skipBlanks_of_plain plain,
    entryDocuments]

theorem readEntries_cons
    {key : String} {value : Json} {next : String × Json}
    {rest : List (String × Json)} {bound : Nat} {following : List Symbol}
    (read :
      ∀ following,
        readValue bound (value.characters.map some ++ some ',' :: following) =
          (value.document, some ',' :: following))
    (readRest :
      readEntries bound
          ((entryCharacters (next :: rest)).map some ++
            some '\x7d' :: following) =
        (entryDocuments (next :: rest), following)) :
    readEntries (bound + 1)
        ((entryCharacters ((key, value) :: next :: rest)).map some ++
          some '\x7d' :: following) =
      (entryDocuments ((key, value) :: next :: rest), following) := by
  have isText :
      (entryCharacters ((key, value) :: next :: rest)).map some ++
          some '\x7d' :: following =
        some '"' ::
          ((key.toList.flatMap escaped).map some ++
            some '"' :: some ':' ::
              (value.characters.map some ++
                some ',' ::
                  ((entryCharacters (next :: rest)).map some ++
                    some '\x7d' :: following))) := by
    simp [entryCharacters, quoted]
  have plainQuote : isSeparator (some '"') = false := rfl
  have plainColon : isSeparator (some ':') = false := rfl
  have plain : isSeparator (some ',') = false := rfl
  rw [isText, readEntries]
  simp only [skipBlanks_of_plain plainQuote, readQuoted_quoted,
    skipBlanks_of_plain plainColon, read, skipBlanks_of_plain plain, readRest]
  rfl

theorem length_characters_pos (value : Json) :
    0 < value.characters.length := by
  obtain ⟨first, rest, isText, -⟩ := characters_eq_cons value
  rw [isText, List.length_cons]
  omega

theorem length_le_itemCharacters :
    ∀ items : List Json, items.length ≤ (itemCharacters items).length
  | [] => Nat.zero_le _
  | [item] => length_characters_pos item
  | _ :: next :: rest => by
      have others := length_le_itemCharacters (next :: rest)
      simp only [itemCharacters, List.length_append, List.length_cons] at *
      omega

mutual

/-- The bound is as large as the text that is to be read. -/
theorem readValue_characters :
    ∀ (value : Json) (bound : Nat) (following : List Symbol),
      value.characters.length ≤ bound → EndsNumber following →
        readValue bound (value.characters.map some ++ following) =
          (value.document, following)
  | value, 0, _, long, _ => by
      have positive := length_characters_pos value
      omega
  | .null, bound + 1, following, _, _ =>
      readValue_word bound following (.inl rfl)
  | .boolean truth, bound + 1, following, _, _ =>
      readValue_word bound following (.inr ⟨truth, rfl⟩)
  | .number value, bound + 1, _, _, ends => readValue_number value bound ends
  | .string value, bound + 1, following, _, _ =>
      readValue_string value bound following
  | .list items, bound + 1, following, long, _ => by
      refine readValue_list fun nonEmpty => ?_
      refine readItems_characters items bound following nonEmpty ?_
      simp only [characters, List.length_cons, List.length_append,
        List.length_nil] at long
      omega
  | .object entries, bound + 1, following, long, _ => by
      refine readValue_object fun nonEmpty => ?_
      refine readEntries_characters entries bound following nonEmpty ?_
      simp only [characters, List.length_cons, List.length_append,
        List.length_nil] at long
      omega

theorem readItems_characters :
    ∀ (items : List Json) (bound : Nat) (following : List Symbol),
      items ≠ [] → (itemCharacters items).length < bound →
        readItems bound
            ((itemCharacters items).map some ++ some ']' :: following) =
          (itemDocuments items, following)
  | [], _, _, nonEmpty, _ => absurd rfl nonEmpty
  | _ :: _, 0, _, _, long => absurd long (Nat.not_lt_zero _)
  | [item], bound + 1, following, _, long => by
      refine readItems_last (readValue_characters item bound _ ?_ ?_)
      · exact Nat.le_of_lt_succ long
      · exact endsNumber_cons rfl (by decide) following
  | item :: next :: rest, bound + 1, following, _, long => by
      simp only [itemCharacters, List.length_append, List.length_cons] at long
      refine readItems_cons (fun others => ?_) ?_
      · refine readValue_characters item bound _ (by omega) ?_
        exact endsNumber_cons rfl (by decide) others
      · exact readItems_characters (next :: rest) bound following
          (List.cons_ne_nil next rest) (by omega)

theorem readEntries_characters :
    ∀ (entries : List (String × Json)) (bound : Nat)
      (following : List Symbol),
      entries ≠ [] → (entryCharacters entries).length < bound →
        readEntries bound
            ((entryCharacters entries).map some ++
              some '\x7d' :: following) =
          (entryDocuments entries, following)
  | [], _, _, nonEmpty, _ => absurd rfl nonEmpty
  | _ :: _, 0, _, _, long => absurd long (Nat.not_lt_zero _)
  | [(key, value)], bound + 1, following, _, long => by
      simp only [entryCharacters, List.length_append, List.length_cons] at long
      refine readEntries_last (readValue_characters value bound _ ?_ ?_)
      · omega
      · exact endsNumber_cons rfl (by decide) following
  | (key, value) :: next :: rest, bound + 1, following, _, long => by
      simp only [entryCharacters, List.length_append, List.length_cons] at long
      refine readEntries_cons (fun others => ?_) ?_
      · refine readValue_characters value bound _ (by omega) ?_
        exact endsNumber_cons rfl (by decide) others
      · exact readEntries_characters (next :: rest) bound following
          (List.cons_ne_nil next rest) (by omega)

end

/-- The text of a value is read as its document. -/
theorem ofSymbols_characters (value : Json) :
    Document.ofSymbols (value.characters.map some) = (value.document, true) := by
  have read :=
    readValue_characters value (2 * (value.characters.map some).length + 1) []
      (by rw [List.length_map]; omega) endsNumber_nil
  rw [List.append_nil] at read
  simp only [Document.ofSymbols, read]
  rfl

section Bodies

variable {Value : Type} (reader : Reader Value) (value : Json)

/-- Reading a body that was written is reading the document of its value. -/
theorem readBytes_characters :
    readBytes reader (Text.Utf8.encode value.characters) =
      reader depthLimit value.document := by
  rw [readBytes, readSymbols, Text.Utf8.symbols_encode, ofSymbols_characters]
  dsimp only
  split
  · rename_i isError
    exact isError.symm
  · rename_i isValue
    rw [isValue]
    rfl

end Bodies

end TraceArchive.Json
