import TraceArchive.Proofs.Json.Readable

/-!
# Reading lists, maps and records

A list or a map is read item by item. A record whose present fields are written
in the order of its form, each under its own name, is read field by field:
`RecordForm.Reads` follows the fields that are still to come, and
`RecordForm.Fills` does so where every field is written. Whatever the text is,
everything in what is read was read by the reader of its place:
`RecordForm.holds_of_read` lifts what each field keeps to the whole record, and
`RecordForm.read_of_mem_read` says that no written field was left unread.
-/

namespace TraceArchive.Json

/-! ## Lists and maps -/

namespace Reader

variable {Value : Type} {reader : Reader Value} {room : Nat}

theorem items_document
    {form : Value → Json} {values : List Value}
    (reads : ∀ value ∈ values, reader room (form value).document = .ok value) :
    items reader room (itemDocuments (values.map form)) = .ok values := by
  induction values with
  | nil => rfl
  | cons value rest inductionHypothesis =>
      have readFirst := reads value List.mem_cons_self
      have readRest := inductionHypothesis fun other member =>
        reads other (List.mem_cons_of_mem _ member)
      simp only [List.map_cons, itemDocuments, items, readFirst, readRest]

theorem list_document
    {form : Value → Json} {values : List Value}
    (reads : ∀ value ∈ values, reader room (form value).document = .ok value) :
    list reader (room + 1) (document (.list (values.map form))) =
      .ok values := by
  have read := items_document reads
  simp only [document, list, read]

theorem read_of_items_document
    {form : Value → Json} {values results : List Value}
    (read : items reader room (itemDocuments (values.map form)) = .ok results) :
    ∀ value ∈ values, ∃ result, reader room (form value).document = .ok result
    := by
  induction values generalizing results with
  | nil => exact fun _ member => absurd member List.not_mem_nil
  | cons value rest inductionHypothesis =>
      simp only [List.map_cons, itemDocuments, items] at read
      split at read
      · cases read
      · rename_i result readFirst
        split at read
        · cases read
        · rename_i others readRest
          rw [List.forall_mem_cons]
          exact ⟨⟨result, readFirst⟩, inductionHypothesis readRest⟩

theorem mapEntries_document
    {form : Value → Json} {before : KeyMap Value}
    {entries : List (String × Value)}
    (reads :
      ∀ entry ∈ entries, reader room (form entry.2).document = .ok entry.2) :
    mapEntries reader room before
        (entryDocuments (entries.map fun entry => (entry.1, form entry.2))) =
      .ok (before.insertAll entries) := by
  induction entries generalizing before with
  | nil => rfl
  | cons entry rest inductionHypothesis =>
      obtain ⟨key, value⟩ := entry
      have readFirst := reads (key, value) List.mem_cons_self
      have readRest :=
        @inductionHypothesis (before.insert key value) fun other member =>
          reads other (List.mem_cons_of_mem _ member)
      simp only [List.map_cons, entryDocuments, mapEntries, readFirst,
        readRest]
      rfl

theorem keyMap_document
    {form : Value → Json} {map : KeyMap Value}
    (reads :
      ∀ entry ∈ map.entries,
        reader room (form entry.2).document = .ok entry.2) :
    keyMap reader (room + 1)
        (document (.object (map.mapValues form).entries)) =
      .ok map := by
  have read :
      mapEntries reader room .empty
          (entryDocuments
            (map.entries.map fun entry => (entry.1, form entry.2))) =
        .ok (KeyMap.empty.insertAll map.entries) :=
    mapEntries_document reads
  have whole : KeyMap.empty.insertAll map.entries = map :=
    KeyMap.ofList_entries map
  simp only [document, KeyMap.mapValues, keyMap, read, whole]

theorem optional_of_some
    {document : Document} {value : Value} (notNull : document ≠ .null)
    (read : reader room document = .ok value) :
    optional reader room document = .ok (some value) := by
  unfold optional
  split
  · exact absurd rfl notNull
  · rw [read]

/-! ### What was read -/

theorem read_of_optional
    {document : Document} {value : Value}
    (read : optional reader room document = .ok (some value)) :
    reader room document = .ok value := by
  unfold optional at read
  split at read
  · cases read
  · split at read
    · cases read
    · rename_i readValue
      cases read
      exact readValue

theorem read_of_mem_items
    {documents : List Document} {values : List Value}
    (read : items reader room documents = .ok values) :
    ∀ value ∈ values, ∃ document, reader room document = .ok value := by
  induction documents generalizing values with
  | nil =>
      cases read
      exact fun _ member => absurd member List.not_mem_nil
  | cons document rest inductionHypothesis =>
      simp only [items] at read
      split at read
      · cases read
      · rename_i value readFirst
        split at read
        · cases read
        · rename_i others readRest
          cases read
          rw [List.forall_mem_cons]
          exact ⟨⟨document, readFirst⟩, inductionHypothesis readRest⟩

theorem read_of_mem_list
    {document : Document} {values : List Value}
    (read : list reader (room + 1) document = .ok values) :
    ∀ value ∈ values, ∃ document, reader room document = .ok value := by
  cases document with
  | list documents => exact read_of_mem_items read
  | _ => cases read

theorem read_of_mem_mapEntries
    {before map : KeyMap Value} {entries : List (Option String × Document)}
    (read : mapEntries reader room before entries = .ok map)
    (readBefore :
      ∀ entry ∈ before.entries,
        ∃ document, reader room document = .ok entry.2) :
    ∀ entry ∈ map.entries, ∃ document, reader room document = .ok entry.2 := by
  induction entries generalizing before with
  | nil =>
      cases read
      exact readBefore
  | cons entry rest inductionHypothesis =>
      obtain ⟨key, document⟩ := entry
      cases key with
      | none => cases read
      | some key =>
          simp only [mapEntries] at read
          split at read
          · cases read
          · rename_i value readFirst
            apply inductionHypothesis read
            intro entry member
            rcases Entries.mem_insert member with rfl | inBefore
            · exact ⟨document, readFirst⟩
            · exact readBefore entry inBefore

theorem read_of_mem_keyMap
    {document : Document} {map : KeyMap Value}
    (read : keyMap reader (room + 1) document = .ok map) :
    ∀ entry ∈ map.entries, ∃ document, reader room document = .ok entry.2 := by
  cases document with
  | object entries =>
      exact read_of_mem_mapEntries read
        fun _ member => absurd member List.not_mem_nil
  | _ => cases read

end Reader

/-! ## Records -/

theorem RecordField.find?_of_others
    {Record : Type} (field : RecordField Record)
    {before : List (RecordField Record)}
    (others : field.name ∉ before.map RecordField.name)
    (plain : ∀ other ∈ before, other.otherName = none)
    (after : List (RecordField Record)) :
    (before ++ field :: after).find?
        (fun other => other.answersTo field.name) = some field := by
  have noneBefore :
      before.find? (fun other => other.answersTo field.name) = none := by
    rw [List.find?_eq_none]
    intro other member answers
    rw [answersTo, plain other member, Bool.or_eq_true, beq_iff_eq] at answers
    rcases answers with isName | isOther
    · exact others (isName ▸ List.mem_map_of_mem member)
    · cases isOther
  have answers : field.answersTo field.name = true := by
    rw [answersTo, Bool.or_eq_true]
    exact Or.inl (beq_self_eq_true field.name)
  rw [List.find?_append, noneBefore, Option.none_or]
  exact List.find?_cons_of_pos answers

namespace RecordForm

variable {Record Value : Type} {form : RecordForm Record} {room : Nat}

/-- Whether entries are read into a record with a result, as long as none of the
fields with the names was seen before. -/
def Reads (form : RecordForm Record) (room : Nat) (names : List String)
    (record : Record) (entries : List (String × Json)) (result : Record) :
    Prop :=
  ∀ seen, (∀ name ∈ seen, name ∉ names) →
    form.readEntries room seen record (entryDocuments entries) = .ok result

theorem Reads.done
    {record : Record}
    (optional : form.fields.all (fun field => !field.required) = true) :
    form.Reads room [] record [] record := by
  intro seen _
  have complete :
      form.fields.all
        (fun field => !field.required || seen.contains field.name) = true := by
    rw [List.all_eq_true] at optional ⊢
    intro field member
    rw [optional field member, Bool.true_or]
  simp only [entryDocuments, readEntries, complete, if_true]

/-- A field that is left out. -/
theorem Reads.skip
    {names : List String} {name : String} {record result : Record}
    {entries : List (String × Json)}
    (rest : form.Reads room names record entries result) :
    form.Reads room (name :: names) record entries result := by
  intro seen unseen
  apply rest
  intro other member isNamed
  exact unseen other member (List.mem_cons_of_mem _ isNamed)

/-- A field that is there. -/
theorem Reads.take
    {names : List String} {name : String} {field : RecordField Record}
    {record changed result : Record} {value : Json}
    {entries : List (String × Json)}
    (isField :
      form.fields.find? (fun other => other.answersTo name) = some field)
    (named : field.name = name) (isNew : name ∉ names)
    (assigns : field.assign room value.document record = .ok changed)
    (rest : form.Reads room names changed entries result) :
    form.Reads room (name :: names) record ((name, value) :: entries)
      result := by
  subst named
  intro seen unseen
  have notSeen : seen.contains field.name = false := by
    rw [← Bool.not_eq_true, List.contains_iff_mem]
    exact fun member => unseen field.name member List.mem_cons_self
  have readRest := rest (field.name :: seen) (by
    intro name member
    rcases List.mem_cons.mp member with rfl | before
    · exact isNew
    · exact fun isNamed =>
        unseen name before (List.mem_cons_of_mem _ isNamed))
  simp only [entryDocuments, readEntries, isField, notSeen,
    Bool.false_eq_true, if_false, assigns, readRest]

theorem read_of_reads
    {names : List String} {entries : List (String × Json)} {result : Record}
    (reads : form.Reads room names form.initial entries result) :
    form.read (room + 1) (document (.object entries)) = .ok result := by
  have read := reads [] (by simp)
  simp only [document, RecordForm.read, read]

/-! ### Records of which every field is written -/

/-- Whether entries are the values of fields in their order, and putting these
into a record leads to another. -/
inductive Fills (room : Nat) :
    List (RecordField Record) → Record → List (String × Json) → Record → Prop
  | done (record : Record) : Fills room [] record [] record
  | value {Value : Type} {name : String} {required : Bool}
      {reader : Reader Value} {set : Record → Value → Record}
      {fields : List (RecordField Record)} {record result : Record}
      {value : Value} {json : Json} {entries : List (String × Json)}
      (read : reader room json.document = .ok value)
      (rest : Fills room fields (set record value) entries result) :
      Fills room (.of name required reader set :: fields) record
        ((name, json) :: entries) result

/-- The induction is on the fields that are still to come; those before them
are the ones that were seen. -/
theorem readEntries_of_fills
    (distinct : (form.fields.map RecordField.name).Nodup)
    {before fields : List (RecordField Record)} {record result : Record}
    {entries : List (String × Json)}
    (fills : Fills room fields record entries result)
    (split : form.fields = before ++ fields)
    (plain : ∀ field ∈ before, field.otherName = none)
    {seen : List String}
    (areSeen : ∀ name, name ∈ seen ↔ name ∈ before.map RecordField.name) :
    form.readEntries room seen record (entryDocuments entries) =
      .ok result := by
  induction fills generalizing before seen with
  | done record =>
      have complete :
          form.fields.all
              (fun field => !field.required || seen.contains field.name) =
            true := by
        rw [List.all_eq_true]
        intro field member
        rw [split, List.append_nil] at member
        have isSeen := (areSeen field.name).mpr (List.mem_map_of_mem member)
        rw [List.contains_iff_mem.mpr isSeen, Bool.or_true]
      simp only [entryDocuments, readEntries, complete, if_true]
  | @value Value name required reader set fields record result value json
      entries read rest inductionHypothesis =>
      let field : RecordField Record := .of name required reader set
      have others : name ∉ before.map RecordField.name := by
        rw [split, List.map_append, List.nodup_append] at distinct
        intro member
        exact distinct.2.2 name member name List.mem_cons_self rfl
      have isField :
          form.fields.find? (fun other => other.answersTo name) =
            some field := by
        rw [split]
        exact field.find?_of_others others plain fields
      have notSeen : seen.contains name = false := by
        rw [← Bool.not_eq_true, List.contains_iff_mem, areSeen name]
        exact others
      have isFieldName : field.name = name := rfl
      have assigns :
          field.assign room json.document record = .ok (set record value) := by
        simp only [field, RecordField.of, read]
      have readRest :
          form.readEntries room (name :: seen) (set record value)
              (entryDocuments entries) = .ok result := by
        refine @inductionHypothesis (before ++ [field]) ?_ ?_ _ ?_
        · rw [split, List.append_assoc, List.singleton_append]
        · rw [List.forall_mem_append, List.forall_mem_singleton]
          exact ⟨plain, rfl⟩
        · intro other
          rw [List.mem_cons, areSeen other, List.map_append, List.mem_append,
            List.map_singleton, List.mem_singleton, isFieldName, or_comm]
      simp only [entryDocuments, readEntries, isField, isFieldName, notSeen,
        Bool.false_eq_true, if_false, assigns, readRest]

theorem read_of_fills
    (distinct : (form.fields.map RecordField.name).Nodup)
    {entries : List (String × Json)} {result : Record}
    (fills : Fills room form.fields form.initial entries result) :
    form.read (room + 1) (document (.object entries)) = .ok result :=
  @readEntries_of_fills _ form room distinct [] _ _ _ _ fills rfl
    (List.forall_mem_nil _) [] fun _ => Iff.rfl

/-! ### What was read -/

/-- Every field that was written was put into some record. -/
theorem assigned_of_readEntries
    {entries : List (String × Json)} {seen : List String}
    {record result : Record}
    (read :
      form.readEntries room seen record (entryDocuments entries) = .ok result)
    {name : String} {value : Json} (member : (name, value) ∈ entries)
    {field : RecordField Record}
    (isField :
      form.fields.find? (fun other => other.answersTo name) = some field) :
    ∃ before changed,
      field.assign room value.document before = .ok changed := by
  induction entries generalizing seen record with
  | nil => exact absurd member List.not_mem_nil
  | cons entry rest inductionHypothesis =>
      obtain ⟨key, first⟩ := entry
      simp only [entryDocuments, readEntries] at read
      rcases List.mem_cons.mp member with isFirst | inRest
      · cases isFirst
        rw [isField] at read
        dsimp only at read
        split at read
        · cases read
        · split at read
          · cases read
          · rename_i changed assigns
            exact ⟨record, changed, assigns⟩
      · split at read
        · split at read
          · exact inductionHypothesis read inRest
          · cases read
        · split at read
          · cases read
          · split at read
            · cases read
            · exact inductionHypothesis read inRest

/-- The value of every field that was written was read. -/
theorem read_of_mem_read
    {entries : List (String × Json)} {result : Record}
    (read : form.read (room + 1) (document (.object entries)) = .ok result)
    {name : String} {value : Json} (member : (name, value) ∈ entries)
    {required : Bool} {reader : Reader Value} {set : Record → Value → Record}
    (isField :
      form.fields.find? (fun other => other.answersTo name) =
        some (.of name required reader set)) :
    ∃ held, reader room value.document = .ok held := by
  have readFields :
      form.readEntries room [] form.initial (entryDocuments entries) =
        .ok result :=
    read
  obtain ⟨before, changed, assigns⟩ :=
    assigned_of_readEntries readFields member isField
  simp only [RecordField.of] at assigns
  split at assigns
  · cases assigns
  · rename_i held readValue
    exact ⟨held, readValue⟩

end RecordForm

/-! ## Bodies -/

theorem read_of_readBytes
    {Value : Type} {reader : Reader Value} {body : List UInt8} {value : Value}
    (read : readBytes reader body = .ok value) :
    ∃ document, reader depthLimit document = .ok value := by
  unfold readBytes readSymbols at read
  dsimp only at read
  split at read
  · cases read
  · rename_i readValue
    split at read
    · cases read
      exact ⟨_, readValue⟩
    · cases read

/-! ## What reading a record keeps -/

/-- Whether a property of a record stays when a field is put into it. -/
def RecordField.Keeps
    {Record : Type} (field : RecordField Record) (room : Nat)
    (Holds : Record → Prop) : Prop :=
  ∀ document record changed,
    field.assign room document record = .ok changed →
      Holds record → Holds changed

theorem RecordField.keeps_of
    {Record Value : Type} {name : String} {required : Bool}
    {reader : Reader Value} {set : Record → Value → Record} {room : Nat}
    {Holds : Record → Prop}
    (keeps :
      ∀ record value, (∃ document, reader room document = .ok value) →
        Holds record → Holds (set record value)) :
    (RecordField.of name required reader set).Keeps room Holds := by
  intro document record changed assigns holds
  simp only [RecordField.of] at assigns
  split at assigns
  · cases assigns
  · rename_i value read
    cases assigns
    exact keeps record value ⟨document, read⟩ holds

theorem RecordField.keeps_of_unused
    {Record Value : Type} {name : String} {required : Bool}
    {reader : Reader Value} {set : Record → Value → Record} {room : Nat}
    {Holds : Record → Prop}
    (unused : ∀ record value, Holds record → Holds (set record value)) :
    (RecordField.of name required reader set).Keeps room Holds :=
  keeps_of fun record value _ => unused record value

theorem RecordField.Keeps.orNamed
    {Record : Type} {field : RecordField Record} {room : Nat}
    {Holds : Record → Prop} (keeps : field.Keeps room Holds)
    (other : String) : (field.orNamed other).Keeps room Holds :=
  keeps

namespace RecordForm

variable {Record : Type} {form : RecordForm Record} {room : Nat}
  {Holds : Record → Prop}

theorem holds_of_readEntries
    (keeps : ∀ field ∈ form.fields, field.Keeps room Holds)
    {entries : List (Option String × Document)} {seen : List String}
    {record result : Record}
    (read : form.readEntries room seen record entries = .ok result)
    (holds : Holds record) : Holds result := by
  induction entries generalizing seen record with
  | nil =>
      simp only [readEntries] at read
      split at read
      · cases read
        exact holds
      · cases read
  | cons entry rest inductionHypothesis =>
      obtain ⟨key, document⟩ := entry
      cases key with
      | none => cases read
      | some key =>
          simp only [readEntries] at read
          split at read
          · split at read
            · exact inductionHypothesis read holds
            · cases read
          · rename_i field isField
            split at read
            · cases read
            · split at read
              · cases read
              · rename_i changed assigns
                have member := List.mem_of_find?_eq_some isField
                have kept := keeps field member _ _ _ assigns holds
                exact inductionHypothesis read kept

theorem holds_of_readItems
    {fields : List (RecordField Record)}
    (keeps : ∀ field ∈ fields, field.Keeps room Holds)
    {documents : List Document} {record result : Record}
    (read : readItems room fields record documents = .ok result)
    (holds : Holds record) : Holds result := by
  induction documents generalizing fields record with
  | nil =>
      simp only [readItems] at read
      split at read
      · cases read
        exact holds
      · cases read
  | cons document rest inductionHypothesis =>
      cases fields with
      | nil => cases read
      | cons field others =>
          simp only [readItems] at read
          split at read
          · cases read
          · rename_i changed assigns
            rw [List.forall_mem_cons] at keeps
            have kept := keeps.1 _ _ _ assigns holds
            exact inductionHypothesis keeps.2 read kept

/-- What every field keeps holds of every record that is read. -/
theorem holds_of_read
    (keeps : ∀ field ∈ form.fields, field.Keeps room Holds)
    (initial : Holds form.initial) {document : Document} {record : Record}
    (read : form.read (room + 1) document = .ok record) : Holds record := by
  cases document with
  | object entries => exact holds_of_readEntries keeps read initial
  | list documents => exact holds_of_readItems keeps read initial
  | _ => cases read

end RecordForm

end TraceArchive.Json
