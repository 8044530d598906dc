import TraceArchive.Check.Location
import TraceArchive.Proofs.Text.Blank

/-!
# Canonical locations

A location that was accepted is in a canonical form: its message is accepted
again, as the same location. The main statement is
`Check.canonical_of_checkLocation`.
-/

namespace TraceArchive

/-! ## Parts between separators -/

namespace Text

theorem partsAt_eq_splitOn (separator : Char) (characters : List Char) :
    partsAt separator characters = characters.splitOn separator := by
  induction characters with
  | nil => rfl
  | cons first rest inductionHypothesis =>
      have split :
          (first :: rest).splitOn separator =
            if (first == separator) = true then
              [] :: rest.splitOn separator
            else (rest.splitOn separator).modifyHead (List.cons first) :=
        List.splitOnP_cons_eq_if_modifyHead first rest
      rw [partsAt, inductionHypothesis, split]
      by_cases isSeparator : first = separator
      · rw [if_pos isSeparator, if_pos (beq_iff_eq.mpr isSeparator)]
      · rw [if_neg isSeparator, if_neg (isSeparator ∘ beq_iff_eq.mp)]
        cases isParts : rest.splitOn separator with
        | nil => simp [List.splitOn] at isParts
        | cons part parts => rfl

/-- The parts of a text, joined by the separator, are the text again. -/
theorem intercalate_partsAt (separator : Char) (characters : List Char) :
    [separator].intercalate (partsAt separator characters) = characters := by
  rw [partsAt_eq_splitOn, List.intercalate_splitOn]

theorem intercalate_three (separator : Char) (first second third : List Char) :
    [separator].intercalate [first, second, third] =
      first ++ separator :: second ++ separator :: third := by
  simp

/-- Three texts without the separator are the parts of what they are joined to
by it. -/
theorem partsAt_three
    {separator : Char} {first second third : List Char}
    (notInFirst : separator ∉ first) (notInSecond : separator ∉ second)
    (notInThird : separator ∉ third) :
    partsAt separator (first ++ separator :: second ++ separator :: third) =
      [first, second, third] := by
  have absent : ∀ part ∈ [first, second, third], separator ∉ part := by
    intro part member
    simp only [List.mem_cons, List.not_mem_nil, or_false] at member
    rcases member with rfl | rfl | rfl
    · exact notInFirst
    · exact notInSecond
    · exact notInThird
  rw [partsAt_eq_splitOn, ← intercalate_three,
    List.splitOn_intercalate separator absent (List.cons_ne_nil _ _)]

end Text

/-- The three parts joined by points. -/
def TableName.fullName (name : TableName) : String :=
  name.catalog ++ "." ++ name.schema ++ "." ++ name.table

namespace Check

/-! ## Names -/

/-- The code points of a name are between those of the hyphen and of `z`. -/
theorem range_of_isNameCharacter
    {character : Char} (inName : isNameCharacter character = true) :
    45 ≤ character.toNat ∧ character.toNat ≤ 122 := by
  change ((((decide (character.val ≥ 65 ∧ character.val ≤ 90) ||
      (decide (character.val ≥ 97) && decide (character.val ≤ 122))) ||
      (decide (character.val ≥ 48) && decide (character.val ≤ 57))) ||
      character == '_') || character == '-') = true at inName
  simp only [Bool.or_eq_true, Bool.and_eq_true, decide_eq_true_eq, beq_iff_eq,
    ge_iff_le, UInt32.le_iff_toNat_le] at inName
  change ((((65 ≤ character.toNat ∧ character.toNat ≤ 90) ∨
    97 ≤ character.toNat ∧ character.toNat ≤ 122) ∨
      48 ≤ character.toNat ∧ character.toNat ≤ 57) ∨ character = '_') ∨
        character = '-' at inName
  rcases inName with (inRange | rfl) | rfl
  · omega
  · decide
  · decide

theorem not_isBlank_of_isNameCharacter
    {character : Char} (inName : isNameCharacter character = true) :
    Text.isBlank character = false := by
  have range := range_of_isNameCharacter inName
  simp only [Text.isBlank, Bool.or_eq_false_iff, Bool.and_eq_false_iff,
    decide_eq_false_iff_not, beq_eq_false_iff_ne]
  omega

section Name

variable {part : List Char} (isPart : isName part = true)

include isPart

theorem isNameCharacter_of_mem
    {character : Char} (member : character ∈ part) :
    isNameCharacter character = true := by
  rw [isName, Bool.and_eq_true] at isPart
  exact List.all_eq_true.mp isPart.2 character member

theorem point_not_mem : '.' ∉ part := fun member =>
  absurd (isNameCharacter_of_mem isPart member) (by decide)

theorem trim_of_isName : Text.trim part = part :=
  Text.trim_of_no_blank fun _ member =>
    not_isBlank_of_isNameCharacter (isNameCharacter_of_mem isPart member)

/-- Nothing has to be taken off a name. -/
theorem plainPart_of_isName : plainPart part = part := by
  unfold plainPart
  rw [trim_of_isName isPart]
  dsimp only
  split
  · exact absurd
      (isNameCharacter_of_mem isPart List.mem_cons_self) (by decide)
  · rfl

end Name

/-! ## Names of tables -/

theorem partsAt_of_names
    {catalog schema table : List Char} (isCatalog : isName catalog = true)
    (isSchema : isName schema = true) (isTable : isName table = true) :
    Text.partsAt '.' (catalog ++ '.' :: schema ++ '.' :: table) =
      [catalog, schema, table] :=
  Text.partsAt_three (point_not_mem isCatalog) (point_not_mem isSchema)
    (point_not_mem isTable)

/-- Whether a text has three parts that are names, once they are plain. -/
structure HasParts (characters : List Char) (name : TableName) : Prop where
  parts :
    (Text.partsAt '.' characters).map plainPart =
      [name.catalog.toList, name.schema.toList, name.table.toList]
  catalog : isName name.catalog.toList = true
  schema : isName name.schema.toList = true
  table : isName name.table.toList = true

theorem toList_fullName (name : TableName) :
    name.fullName.toList =
      name.catalog.toList ++ '.' :: name.schema.toList ++
        '.' :: name.table.toList := by
  simp [TableName.fullName]

namespace HasParts

variable {characters : List Char} {name : TableName}

theorem unique
    (hasParts : HasParts characters name) {other : TableName}
    (hasOther : HasParts characters other) : name = other := by
  have same := hasParts.parts.symm.trans hasOther.parts
  simp only [List.cons.injEq, String.toList_inj, and_true] at same
  obtain ⟨_, _, _⟩ := name
  obtain ⟨rfl, rfl, rfl⟩ := same
  rfl

theorem filled (hasParts : HasParts characters name) : characters ≠ [] := by
  rintro rfl
  have parts := congrArg List.length hasParts.parts
  cases parts

section

variable (hasParts : HasParts characters name)

include hasParts

theorem partsAt_fullName :
    Text.partsAt '.' name.fullName.toList =
      [name.catalog.toList, name.schema.toList, name.table.toList] := by
  rw [toList_fullName]
  exact partsAt_of_names hasParts.catalog hasParts.schema hasParts.table

/-- The three parts joined by points have the same parts again. -/
theorem again : HasParts name.fullName.toList name where
  parts := by
    rw [hasParts.partsAt_fullName]
    simp only [List.map_cons, List.map_nil,
      plainPart_of_isName hasParts.catalog,
      plainPart_of_isName hasParts.schema, plainPart_of_isName hasParts.table]
  catalog := hasParts.catalog
  schema := hasParts.schema
  table := hasParts.table

theorem tableName?_fullName :
    TraceLocation.tableName? name.fullName = some name := by
  simp only [TraceLocation.tableName?, hasParts.partsAt_fullName,
    String.ofList_toList]

theorem trimmed_fullName : Text.trimmed name.fullName = name.fullName := by
  rw [Text.trimmed, Text.trim_of_no_blank, String.ofList_toList]
  intro character member
  have ofName : ∀ {part : List Char}, isName part = true →
      character ∈ part → Text.isBlank character = false :=
    fun isPart inPart =>
      not_isBlank_of_isNameCharacter (isNameCharacter_of_mem isPart inPart)
  simp only [toList_fullName, List.append_assoc, List.cons_append,
    List.mem_append, List.mem_cons] at member
  rcases member with inCatalog | rfl | inSchema | rfl | inTable
  · exact ofName hasParts.catalog inCatalog
  · rfl
  · exact ofName hasParts.schema inSchema
  · rfl
  · exact ofName hasParts.table inTable

end

end HasParts

theorem canonicalTableName_eq_ok_iff {given fullName : String} :
    canonicalTableName given = .ok fullName ↔
      ∃ name, HasParts given.toList name ∧ name.fullName = fullName := by
  constructor
  · intro accepted
    unfold canonicalTableName at accepted
    split at accepted
    · rename_i catalog schema table parts
      split at accepted
      · rename_i areNames
        cases accepted
        simp only [Bool.and_eq_true] at areNames
        obtain ⟨⟨isCatalog, isSchema⟩, isTable⟩ := areNames
        let name : TableName :=
          ⟨String.ofList catalog, String.ofList schema, String.ofList table⟩
        refine ⟨name, ⟨?_, ?_, ?_, ?_⟩, String.toList_inj.mp ?_⟩
        · simpa only [name, String.toList_ofList] using parts
        · simpa only [name, String.toList_ofList] using isCatalog
        · simpa only [name, String.toList_ofList] using isSchema
        · simpa only [name, String.toList_ofList] using isTable
        · simp only [name, toList_fullName, String.toList_ofList]
      · cases accepted
    · cases accepted
  · rintro ⟨name, hasParts, rfl⟩
    simp only [canonicalTableName, hasParts.parts, hasParts.catalog,
      hasParts.schema, hasParts.table, Bool.and_self, if_true,
      ← toList_fullName, String.ofList_toList]

/-! ## What is accepted -/

theorem nonBlank?_eq_some_iff {given : Option String} {content : String} :
    nonBlank? given = some content ↔
      ∃ text, given = some text ∧ Text.trimmed text = content ∧
        content ≠ "" := by
  constructor
  · intro isContent
    unfold nonBlank? at isContent
    split at isContent
    · cases isContent
    · rename_i text
      dsimp only at isContent
      split at isContent
      · cases isContent
      · rename_i filled
        cases isContent
        exact ⟨text, rfl, rfl, by simpa using filled⟩
  · rintro ⟨text, rfl, rfl, filled⟩
    simp [nonBlank?, filled]

theorem checkExperiment_eq_ok_iff
    {sent : Option String} {location : TraceLocation} :
    checkExperiment sent = .ok location ↔
      ∃ text, sent = some text ∧ Text.trimmed text ≠ "" ∧
        location = .experiment (Text.trimmed text) := by
  have isContent :
      checkExperiment sent = .ok location ↔
        ∃ identifier, nonBlank? sent = some identifier ∧
          location = .experiment identifier := by
    unfold checkExperiment
    cases nonBlank? sent <;> simp [eq_comm]
  rw [isContent]
  simp only [nonBlank?_eq_some_iff]
  constructor
  · rintro ⟨_, ⟨text, rfl, rfl, filled⟩, rfl⟩
    exact ⟨text, rfl, filled, rfl⟩
  · rintro ⟨text, rfl, filled, rfl⟩
    exact ⟨_, ⟨text, rfl, rfl, filled⟩, rfl⟩

theorem checkTable_eq_ok_iff
    {sent : Option String} {location : TraceLocation} :
    checkTable sent = .ok location ↔
      ∃ text name, sent = some text ∧
        HasParts (Text.trimmed text).toList name ∧
          location = .inferenceTable name.fullName := by
  have isName :
      checkTable sent = .ok location ↔
        ∃ content fullName, nonBlank? sent = some content ∧
          canonicalTableName content = .ok fullName ∧
            location = .inferenceTable fullName := by
    unfold checkTable
    cases nonBlank? sent with
    | none => simp
    | some content =>
        simp only [Option.some.injEq, exists_and_left, exists_eq_left']
        cases canonicalTableName content <;> simp [eq_comm]
  rw [isName]
  simp only [nonBlank?_eq_some_iff, canonicalTableName_eq_ok_iff]
  constructor
  · rintro ⟨_, _, ⟨text, rfl, rfl, _⟩, ⟨name, hasParts, rfl⟩, rfl⟩
    exact ⟨text, name, rfl, hasParts, rfl⟩
  · rintro ⟨text, name, rfl, hasParts, rfl⟩
    refine ⟨_, _, ⟨text, rfl, rfl, ?_⟩, ⟨name, hasParts, rfl⟩, rfl⟩
    exact fun isEmpty => hasParts.filled (by simp [isEmpty])

theorem bind_withKind_eq_ok_iff
    {checked : Except Violation TraceLocation} {declared : Option LocationKind}
    {location : TraceLocation} :
    checked.bind (withKind declared) = .ok location ↔
      checked = .ok location ∧ fitsKind declared location = true := by
  cases checked with
  | error violation => simp [Except.bind]
  | ok found =>
      change withKind declared found = .ok location ↔ _
      by_cases isFitting : fitsKind declared found = true
      · rw [withKind, if_pos isFitting]
        refine ⟨?_, And.left⟩
        intro same
        exact ⟨same, Except.ok.inj same ▸ isFitting⟩
      · rw [withKind, if_neg isFitting]
        constructor
        · intro refused
          cases refused
        · rintro ⟨same, fits⟩
          exact absurd (Except.ok.inj same ▸ fits) isFitting

/-! ## Locations -/

/-- Whether a location is accepted as it is. -/
def Canonical (location : TraceLocation) : Prop :=
  checkLocation (some (Wire.Location.ofLocation location)) = .ok location

theorem canonical_experiment_iff {identifier : String} :
    Canonical (.experiment identifier) ↔
      checkExperiment (some identifier) = .ok (.experiment identifier) := by
  have split :
      Canonical (.experiment identifier) ↔
        (checkExperiment (some identifier)).bind
            (withKind (some .experiment)) =
          .ok (.experiment identifier) := Iff.rfl
  rw [split, bind_withKind_eq_ok_iff]
  exact and_iff_left rfl

theorem canonical_inferenceTable_iff {fullName : String} :
    Canonical (.inferenceTable fullName) ↔
      checkTable (some fullName) = .ok (.inferenceTable fullName) := by
  have split :
      Canonical (.inferenceTable fullName) ↔
        (checkTable (some fullName)).bind (withKind (some .inferenceTable)) =
          .ok (.inferenceTable fullName) := Iff.rfl
  rw [split, bind_withKind_eq_ok_iff]
  exact and_iff_left rfl

/-- A location that was accepted is accepted again as it is. -/
theorem canonical_of_checkLocation
    {message : Option Wire.Location} {location : TraceLocation}
    (accepted : checkLocation message = .ok location) :
    Canonical location := by
  unfold checkLocation at accepted
  split at accepted
  · cases accepted
  · split at accepted
    · cases accepted
    · cases accepted
    · obtain ⟨isChecked, _⟩ := bind_withKind_eq_ok_iff.mp accepted
      obtain ⟨text, rfl, filled, rfl⟩ := checkExperiment_eq_ok_iff.mp isChecked
      rw [canonical_experiment_iff, checkExperiment_eq_ok_iff]
      refine ⟨_, rfl, ?_, ?_⟩
      · rwa [Text.trimmed_trimmed]
      · rw [Text.trimmed_trimmed]
    · obtain ⟨isChecked, _⟩ := bind_withKind_eq_ok_iff.mp accepted
      obtain ⟨text, name, rfl, hasParts, rfl⟩ :=
        checkTable_eq_ok_iff.mp isChecked
      rw [canonical_inferenceTable_iff, checkTable_eq_ok_iff]
      refine ⟨_, name, rfl, ?_, rfl⟩
      rw [hasParts.trimmed_fullName]
      exact hasParts.again

/-- The full name of a table in its canonical form has three parts. -/
theorem tableName?_of_canonical
    {fullName : String} (canonical : Canonical (.inferenceTable fullName)) :
    ∃ name, TraceLocation.tableName? fullName = some name := by
  obtain ⟨_, name, _, hasParts, isName⟩ :=
    checkTable_eq_ok_iff.mp (canonical_inferenceTable_iff.mp canonical)
  cases isName
  exact ⟨name, hasParts.tableName?_fullName⟩

end Check

end TraceArchive
