import TraceArchive.Proofs.Service.Submission
import TraceArchive.Service.Access

/-!
# Spellings of locations

A location in a message can be spelled in many ways: with blanks around it, and
around the parts of the name of a table, each of which may stand between grave
accents. All spellings that stand for the same experiment or table are accepted
as the same location, which is one of its own spellings:
`checkLocation_normalizes`.
-/

namespace TraceArchive

/-! ## Spellings -/

/-- Whether a part of the full name of a table spells a name of letters from `A`
to `Z`, digits, underscores and hyphens: without the blanks around it, it is the
name or the name between grave accents. -/
structure IsSpelling (name : String) (part : List Char) : Prop where
  filled : name ≠ ""
  plain :
    ∀ character ∈ name.toList,
      character.isAlphanum = true ∨ character = '_' ∨ character = '-'
  spelled :
    Text.IsTrimmed name.toList part ∨
      Text.IsTrimmed ('\x60' :: (name.toList ++ ['\x60'])) part

namespace TableName

/-- Whether a text, without the blanks around it, is three spelled parts joined
by points. -/
def IsSpelledBy (name : TableName) (text : String) : Prop :=
  ∃ catalog schema table,
    Text.IsTrimmed (catalog ++ '.' :: schema ++ '.' :: table) text.toList ∧
      IsSpelling name.catalog catalog ∧ IsSpelling name.schema schema ∧
        IsSpelling name.table table

end TableName

/-- Whether a location in a message stands for an experiment or a table, and for
nothing else. -/
inductive Wire.Location.StandsFor (given : Wire.Location) :
    LocationTarget → Prop
  | experiment {text identifier : String}
      (sent : given.experiment = some (some text))
      (alone : given.inferenceTable = none) (filled : identifier ≠ "")
      (trimmed : Text.IsTrimmed identifier.toList text.toList) :
      given.StandsFor (.experiment identifier)
  | table {text : String} {name : TableName}
      (sent : given.inferenceTable = some (some text))
      (alone : given.experiment = none) (spelled : name.IsSpelledBy text) :
      given.StandsFor (.table name)

/-- The location of an experiment or of a table. -/
def LocationTarget.location : LocationTarget → TraceLocation
  | .experiment identifier => .experiment identifier
  | .table name => .inferenceTable name.fullName

/-! ## Parts -/

namespace Check

theorem isName_iff {part : List Char} :
    isName part = true ↔
      part ≠ [] ∧
        ∀ character ∈ part,
          character.isAlphanum = true ∨ character = '_' ∨ character = '-' := by
  simp [isName, isNameCharacter, List.all_eq_true, or_assoc]

/-- What is taken off a part: blanks alone, or blanks and a pair of grave
accents. -/
theorem plainPart_cases (part : List Char) :
    Text.trim part = plainPart part ∨
      Text.trim part = '\x60' :: (plainPart part ++ ['\x60']) := by
  unfold plainPart
  dsimp only
  split
  · rename_i rest isQuoted
    split
    · rename_i inner isReverse
      have isRest : rest = inner.reverse ++ ['\x60'] := by
        rw [← List.reverse_cons, ← isReverse, List.reverse_reverse]
      rw [← isRest]
      exact Or.inr isQuoted
    · exact Or.inl rfl
  · exact Or.inl rfl

theorem plainPart_quoted
    {part inner : List Char}
    (isQuoted : Text.trim part = '\x60' :: (inner ++ ['\x60'])) :
    plainPart part = inner := by
  simp [plainPart, isQuoted]

theorem isSpelling_iff {name : String} {part : List Char} :
    IsSpelling name part ↔
      isName name.toList = true ∧ plainPart part = name.toList := by
  constructor
  · rintro ⟨filled, plain, spelled⟩
    have isPart : isName name.toList = true := by
      refine isName_iff.mpr ⟨?_, plain⟩
      simpa using filled
    refine ⟨isPart, ?_⟩
    rcases spelled with bare | quoted
    · calc
        plainPart part = plainPart (Text.trim part) := by
          simp only [plainPart, Text.trim_trim]
        _ = plainPart name.toList := by rw [Text.trim_of_isTrimmed bare]
        _ = name.toList := plainPart_of_isName isPart
    · exact plainPart_quoted (Text.trim_of_isTrimmed quoted)
  · rintro ⟨isPart, isPlain⟩
    obtain ⟨filled, plain⟩ := isName_iff.mp isPart
    refine ⟨by simpa using filled, plain, ?_⟩
    rw [← isPlain]
    rcases plainPart_cases part with bare | quoted
    · exact Or.inl (Text.trim_eq_iff.mp bare)
    · exact Or.inr (Text.trim_eq_iff.mp quoted)

theorem point_not_mem_of_isSpelling
    {name : String} {part : List Char} (isSpelling : IsSpelling name part) :
    '.' ∉ part := by
  have notInName : '.' ∉ name.toList :=
    point_not_mem (isSpelling_iff.mp isSpelling).1
  -- A point is no blank, so none is among what was taken off.
  have notInContent :
      ∀ {content : List Char}, '.' ∉ content →
        Text.IsTrimmed content part → '.' ∉ part := by
    rintro content notInContent
      ⟨⟨before, after, rfl, blankBefore, blankAfter⟩, _, _⟩ member
    simp only [List.mem_append] at member
    rcases member with (inBefore | inContent) | inAfter
    · exact absurd (blankBefore '.' inBefore) (by decide)
    · exact notInContent inContent
    · exact absurd (blankAfter '.' inAfter) (by decide)
  rcases isSpelling.spelled with bare | quoted
  · exact notInContent notInName bare
  · refine notInContent ?_ quoted
    simp [notInName]

/-! ## Names of tables -/

theorem isSpelledBy_iff {name : TableName} {text : String} :
    name.IsSpelledBy text ↔ HasParts (Text.trimmed text).toList name := by
  rw [Text.trimmed, String.toList_ofList]
  constructor
  · rintro ⟨catalog, schema, table, trimmed, isCatalog, isSchema, isTable⟩
    have parts :=
      Text.partsAt_three (point_not_mem_of_isSpelling isCatalog)
        (point_not_mem_of_isSpelling isSchema)
        (point_not_mem_of_isSpelling isTable)
    obtain ⟨nameCatalog, plainCatalog⟩ := isSpelling_iff.mp isCatalog
    obtain ⟨nameSchema, plainSchema⟩ := isSpelling_iff.mp isSchema
    obtain ⟨nameTable, plainTable⟩ := isSpelling_iff.mp isTable
    rw [Text.trim_of_isTrimmed trimmed]
    refine ⟨?_, nameCatalog, nameSchema, nameTable⟩
    simp only [parts, List.map_cons, List.map_nil, plainCatalog, plainSchema,
      plainTable]
  · rintro ⟨parts, isCatalog, isSchema, isTable⟩
    have joined := Text.intercalate_partsAt '.' (Text.trim text.toList)
    simp only [List.map_eq_cons_iff, List.map_eq_nil_iff] at parts
    obtain
      ⟨catalog, _, isParts, plainCatalog, schema, _, rfl, plainSchema, table, _,
        rfl, plainTable, rfl⟩ := parts
    rw [isParts, Text.intercalate_three] at joined
    exact
      ⟨catalog, schema, table, Text.trim_eq_iff.mp joined.symm,
        isSpelling_iff.mpr ⟨isCatalog, plainCatalog⟩,
        isSpelling_iff.mpr ⟨isSchema, plainSchema⟩,
        isSpelling_iff.mpr ⟨isTable, plainTable⟩⟩

end Check

/-! ## What a location stands for -/

namespace Wire.Location

/-- Whether a location in a message declares no kind, or this one. -/
def AllowsKind (given : Wire.Location) (kind : LocationKind) : Prop :=
  given.kind = none ∨ given.kind = some .unspecified ∨ given.kind = some kind

theorem allowsKind_iff {given : Wire.Location} {location : TraceLocation} :
    given.AllowsKind location.kind ↔
      Check.fitsKind given.kind location = true := by
  unfold AllowsKind
  cases given.kind <;> simp [Check.fitsKind]

/-- A location in a message stands for one experiment or table. -/
theorem StandsFor.unique
    {given : Wire.Location} {target other : LocationTarget}
    (stands : given.StandsFor target) (again : given.StandsFor other) :
    target = other := by
  cases stands with
  | experiment sent alone _ trimmed =>
      cases again with
      | experiment sameSent _ _ sameTrimmed =>
          cases sent.symm.trans sameSent
          have same :=
            (Text.trim_of_isTrimmed trimmed).symm.trans
              (Text.trim_of_isTrimmed sameTrimmed)
          rw [String.toList_inj.mp same]
      | table otherSent =>
          cases alone.symm.trans otherSent
  | table sent alone spelled =>
      cases again with
      | experiment otherSent =>
          cases alone.symm.trans otherSent
      | table sameSent _ sameSpelled =>
          cases sent.symm.trans sameSent
          rw [(Check.isSpelledBy_iff.mp spelled).unique
            (Check.isSpelledBy_iff.mp sameSpelled)]

end Wire.Location

/-- The locations in messages that are accepted, and as what. -/
theorem Check.checkLocation_eq_ok_iff
    {given : Wire.Location} {location : TraceLocation} :
    checkLocation (some given) = .ok location ↔
      ∃ target, given.StandsFor target ∧ location = target.location ∧
        given.AllowsKind location.kind := by
  rw [Wire.Location.allowsKind_iff]
  constructor
  · intro accepted
    unfold checkLocation at accepted
    dsimp only at accepted
    split at accepted
    · cases accepted
    · cases accepted
    · rename_i sent alone
      obtain ⟨isChecked, allows⟩ := bind_withKind_eq_ok_iff.mp accepted
      obtain ⟨text, rfl, filled, rfl⟩ := checkExperiment_eq_ok_iff.mp isChecked
      have trimmed :
          Text.IsTrimmed (Text.trimmed text).toList text.toList := by
        rw [Text.trimmed, String.toList_ofList]
        exact Text.isTrimmed_trim _
      exact ⟨_, .experiment sent alone filled trimmed, rfl, allows⟩
    · rename_i alone sent
      obtain ⟨isChecked, allows⟩ := bind_withKind_eq_ok_iff.mp accepted
      obtain ⟨text, name, rfl, hasParts, rfl⟩ :=
        checkTable_eq_ok_iff.mp isChecked
      exact
        ⟨_, .table sent alone (isSpelledBy_iff.mpr hasParts), rfl, allows⟩
  · rintro ⟨target, stands, rfl, allows⟩
    cases stands with
    | @experiment text identifier sent alone filled trimmed =>
        have isTrimmed : Text.trimmed text = identifier := by
          rw [Text.trimmed, Text.trim_of_isTrimmed trimmed,
            String.ofList_toList]
        have isChecked :=
          checkExperiment_eq_ok_iff.mpr ⟨text, rfl, isTrimmed ▸ filled, rfl⟩
        rw [isTrimmed] at isChecked
        simp only [checkLocation, sent, alone]
        exact bind_withKind_eq_ok_iff.mpr ⟨isChecked, allows⟩
    | @table text name sent alone spelled =>
        have isChecked :=
          checkTable_eq_ok_iff.mpr
            ⟨text, name, rfl, isSpelledBy_iff.mp spelled, rfl⟩
        simp only [checkLocation, sent, alone]
        exact bind_withKind_eq_ok_iff.mpr ⟨isChecked, allows⟩

/-- Two accepted spellings of the same experiment or table are accepted as the
same location. -/
theorem Check.location_eq_of_accepted
    {given other : Wire.Location} {location otherLocation : TraceLocation}
    {target : LocationTarget}
    (accepted : checkLocation (some given) = .ok location)
    (otherAccepted : checkLocation (some other) = .ok otherLocation)
    (stands : given.StandsFor target) (otherStands : other.StandsFor target) :
    otherLocation = location := by
  obtain ⟨_, found, isLocation, _⟩ := checkLocation_eq_ok_iff.mp accepted
  obtain ⟨_, otherFound, isOther, _⟩ :=
    checkLocation_eq_ok_iff.mp otherAccepted
  rw [isOther, isLocation, otherFound.unique otherStands, found.unique stands]

/-- Once the parts of a table are found, only the authorizer can object. -/
theorem Access.resolve_of_tableName?
    {fullName : String} {name : TableName}
    (isName : TraceLocation.tableName? fullName = some name)
    (principal : Option String) :
    resolve (.inferenceTable fullName) principal = do
      authorize (.inferenceTable fullName) principal
      return ⟨.inferenceTable fullName, .table name⟩ := by
  simp only [resolve, target, isName]
  rfl

/-! ## Normal forms -/

/-- What an accepted location is good for. -/
structure IsNormalForm (given : Wire.Location) (location : TraceLocation) :
    Prop where
  /-- The message about it is accepted as the same location. -/
  again :
    Check.checkLocation (some (Wire.Location.ofLocation location)) =
      .ok location
  /-- A trace that is there does not move when it is submitted with another
  spelling. -/
  stays :
    ∀ {settings : Settings} {message : Wire.Trace} {submission : Submission}
      {info : Wire.TraceInfo} {other : Wire.Location} {target : LocationTarget}
      {stored : TraceInfo},
      given.StandsFor target → other.StandsFor target →
        message.info = some info → info.location = some other →
          Submission.ofRequest settings message = .ok submission →
            stored.location = location →
              Submission.locationChanges stored submission.info = []
  /-- A table is found by its parts, and only the authorizer can object. -/
  resolved :
    ∀ {name : TableName}, given.StandsFor (.table name) →
      ∃ fullName, location = .inferenceTable fullName ∧
        TraceLocation.tableName? fullName = some name ∧
          ∀ principal,
            Access.resolve location principal = do
              Access.authorize location principal
              return ⟨location, .table name⟩

/-- A location in a message is accepted if and only if it stands for an
experiment or a table and does not declare another kind. What it is accepted as
is the same for all its spellings, is accepted again as it is, and is enough to
find the parts of a table. -/
theorem checkLocation_normalizes
    (given : Wire.Location) (location : TraceLocation) :
    (Check.checkLocation (some given) = .ok location ↔
      ∃ target, given.StandsFor target ∧ location = target.location ∧
        given.AllowsKind location.kind) ∧
      (Check.checkLocation (some given) = .ok location →
        IsNormalForm given location) := by
  refine ⟨Check.checkLocation_eq_ok_iff, ?_⟩
  intro accepted
  refine ⟨Check.canonical_of_checkLocation accepted, ?_, ?_⟩
  · intro settings message submission info other target stored stands
      otherStands isInfo isOther submitted isStored
    obtain ⟨sent, isSent, isDraft⟩ := Submission.draft_of_accepted submitted
    cases isInfo.symm.trans isSent
    have otherAccepted := Check.location_of_draft isDraft
    rw [isOther] at otherAccepted
    have same :=
      Check.location_eq_of_accepted accepted otherAccepted stands otherStands
    exact if_pos (same.trans isStored.symm)
  · intro name stands
    obtain ⟨_, found, rfl, _⟩ := Check.checkLocation_eq_ok_iff.mp accepted
    cases found.unique stands
    cases stands with
    | table _ _ spelled =>
        have isName := (Check.isSpelledBy_iff.mp spelled).tableName?_fullName
        exact
          ⟨name.fullName, rfl, isName, Access.resolve_of_tableName? isName⟩

/-- The name of a table with all that may stand around its parts. -/
theorem checkLocation_normalizes_quotedTable :
    let given : Wire.Location :=
      { kind := some .inferenceTable
        inferenceTable := some (some " \x60main\x60 . default.t-1\n") }
    Check.checkLocation (some given) =
        .ok (.inferenceTable "main.default.t-1") ∧
      IsNormalForm given (.inferenceTable "main.default.t-1") := by
  intro given
  have accepted :
      Check.checkLocation (some given) =
        .ok (.inferenceTable "main.default.t-1") := by
    decide +kernel
  exact ⟨accepted, (checkLocation_normalizes _ _).2 accepted⟩

end TraceArchive
