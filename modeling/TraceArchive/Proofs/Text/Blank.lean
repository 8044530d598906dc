import TraceArchive.Text.Blank

/-!
# Texts without blanks around them

Taking the blanks off both ends of a text leaves a text that keeps its ends, and
a text without blanks is left as it is.
-/

namespace TraceArchive.Text

/-- Whether no blank stands at the front. -/
def StartsPlain (characters : List Char) : Prop :=
  ∀ character ∈ characters.head?, isBlank character = false

theorem trimStart_of_startsPlain
    {characters : List Char} (plain : StartsPlain characters) :
    trimStart characters = characters := by
  cases characters with
  | nil => rfl
  | cons first rest =>
      have notBlank : isBlank first = false := plain first rfl
      simp [trimStart, notBlank]

theorem startsPlain_trimStart (characters : List Char) :
    StartsPlain (trimStart characters) := by
  intro character isHead
  have found := List.head?_dropWhile_not isBlank characters
  rw [← trimStart, Option.mem_def.mp isHead] at found
  simpa using found

theorem trimEnd_of_reverse
    {characters : List Char} (plain : StartsPlain characters.reverse) :
    trimEnd characters = characters := by
  have kept : characters.reverse.dropWhile isBlank = characters.reverse :=
    trimStart_of_startsPlain plain
  rw [trimEnd, kept, List.reverse_reverse]

theorem trim_of_startsPlain
    {characters : List Char} (front : StartsPlain characters)
    (back : StartsPlain characters.reverse) :
    trim characters = characters := by
  rw [trim, trimStart_of_startsPlain front, trimEnd_of_reverse back]

/-- A text without any blank is left as it is. -/
theorem trim_of_no_blank
    {characters : List Char}
    (plain : ∀ character ∈ characters, isBlank character = false) :
    trim characters = characters := by
  refine trim_of_startsPlain ?_ ?_
  · intro character isHead
    exact plain character (List.mem_of_head? isHead)
  · intro character isHead
    exact plain character (List.mem_reverse.mp (List.mem_of_head? isHead))

theorem trimEnd_prefix (characters : List Char) :
    trimEnd characters <+: characters := by
  have isSuffix :
      characters.reverse.dropWhile isBlank <:+ characters.reverse :=
    List.dropWhile_suffix isBlank
  have reversed := List.reverse_prefix.mpr isSuffix
  rwa [List.reverse_reverse] at reversed

theorem startsPlain_trim (characters : List Char) :
    StartsPlain (trim characters) := by
  intro character isHead
  obtain ⟨rest, whole⟩ := trimEnd_prefix (trimStart characters)
  refine startsPlain_trimStart characters character ?_
  rw [← whole, List.head?_append, ← trim, Option.mem_def.mp isHead]
  rfl

theorem startsPlain_reverse_trim (characters : List Char) :
    StartsPlain (trim characters).reverse := by
  rw [trim, trimEnd, List.reverse_reverse]
  exact startsPlain_trimStart _

/-- The blanks at both ends are taken off at once. -/
@[simp]
theorem trim_trim (characters : List Char) :
    trim (trim characters) = trim characters :=
  trim_of_startsPlain (startsPlain_trim characters)
    (startsPlain_reverse_trim characters)

@[simp]
theorem trimmed_trimmed (text : String) :
    trimmed (trimmed text) = trimmed text := by
  simp [trimmed]

/-! ## Texts and what is left of them -/

/-- Whether a text is another one with nothing but blanks around it, and keeps
its own ends. -/
structure IsTrimmed (content given : List Char) : Prop where
  surrounded :
    ∃ before after, given = before ++ content ++ after ∧
      (∀ character ∈ before, isBlank character = true) ∧
        ∀ character ∈ after, isBlank character = true
  front : StartsPlain content
  back : StartsPlain content.reverse

theorem isTrimmed_trim (given : List Char) :
    IsTrimmed (trim given) given := by
  have allBlank :
      ∀ (characters : List Char),
        ∀ character ∈ characters.takeWhile isBlank,
          isBlank character = true :=
    fun _ => List.all_eq_true.mp List.all_takeWhile
  refine ⟨?_, startsPlain_trim given, startsPlain_reverse_trim given⟩
  refine
    ⟨given.takeWhile isBlank,
      ((trimStart given).reverse.takeWhile isBlank).reverse, ?_,
      allBlank given, ?_⟩
  · rw [List.append_assoc, trim, trimEnd, ← List.reverse_append,
      List.takeWhile_append_dropWhile, List.reverse_reverse, trimStart,
      List.takeWhile_append_dropWhile]
  · intro character member
    exact allBlank _ character (List.mem_reverse.mp member)

/-- Blanks in front of a text that does not start with one are taken off. -/
theorem trimStart_append
    {before rest : List Char}
    (blank : ∀ character ∈ before, isBlank character = true)
    (plain : StartsPlain rest) : trimStart (before ++ rest) = rest := by
  rw [trimStart, List.dropWhile_append_of_pos blank]
  exact trimStart_of_startsPlain plain

theorem trimEnd_append
    {rest after : List Char}
    (blank : ∀ character ∈ after, isBlank character = true)
    (plain : StartsPlain rest.reverse) : trimEnd (rest ++ after) = rest := by
  have blankReverse : ∀ character ∈ after.reverse, isBlank character = true :=
    fun character member => blank character (List.mem_reverse.mp member)
  rw [trimEnd, List.reverse_append, ← trimStart,
    trimStart_append blankReverse plain, List.reverse_reverse]

theorem trim_of_isTrimmed
    {content given : List Char} (isTrimmed : IsTrimmed content given) :
    trim given = content := by
  obtain ⟨⟨before, after, rfl, blankBefore, blankAfter⟩, front, back⟩ :=
    isTrimmed
  cases content with
  | nil =>
      -- Between the blanks is nothing at which the first pass could stop.
      have allBlank :
          ∀ character ∈ before ++ after, isBlank character = true := by
        intro character member
        rcases List.mem_append.mp member with inBefore | inAfter
        · exact blankBefore character inBefore
        · exact blankAfter character inAfter
      have nothing := @trimStart_append _ [] allBlank front
      rw [List.append_nil] at nothing
      rw [List.append_nil, trim, nothing]
      rfl
  | cons first others =>
      have starts : StartsPlain (first :: others ++ after) := front
      rw [List.append_assoc, trim, trimStart_append blankBefore starts,
        trimEnd_append blankAfter back]

/-- What is left of a text without the blanks around it. -/
theorem trim_eq_iff {content given : List Char} :
    trim given = content ↔ IsTrimmed content given := by
  refine ⟨?_, trim_of_isTrimmed⟩
  rintro rfl
  exact isTrimmed_trim given

end TraceArchive.Text
