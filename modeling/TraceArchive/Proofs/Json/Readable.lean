import TraceArchive.Proofs.Json.Text
import TraceArchive.Proofs.KeyMap

/-!
# Values that can be read again

What is read as an arbitrary value can be written and read again: its numbers
are finite, the keys of its objects are in ascending order, and it has not too
many containers inside each other. More room never hurts, so that whether a
document is read tells whether its value has room. The main statements are
`Json.readable_of_json`, `Json.Readable.json_document` and
`Json.readable_of_json_document`.
-/

namespace TraceArchive.Json

/-! ## Readable values -/

mutual

/-- Whether a value can be read where there is room for so many containers
inside each other. -/
def Readable (room : Nat) : Json → Prop
  | .number value => value.isFinite = true
  | .list items => 0 < room ∧ ReadableItems (room - 1) items
  | .object entries =>
      0 < room ∧ Entries.Ascending entries ∧ ReadableEntries (room - 1) entries
  | _ => True

/-- Whether all values of a list can be read. -/
def ReadableItems (room : Nat) : List Json → Prop
  | [] => True
  | item :: rest => Readable room item ∧ ReadableItems room rest

/-- Whether the values of all entries can be read. -/
def ReadableEntries (room : Nat) : List (String × Json) → Prop
  | [] => True
  | (_, value) :: rest => Readable room value ∧ ReadableEntries room rest

end

mutual

/-- Decides whether a value can be read. -/
def decideReadable (room : Nat) :
    (value : Json) → Decidable (Readable room value)
  | .null => isTrue trivial
  | .boolean _ => isTrue trivial
  | .number value => inferInstanceAs (Decidable (value.isFinite = true))
  | .string _ => isTrue trivial
  | .list items =>
      @instDecidableAnd _ _ (inferInstanceAs (Decidable (0 < room)))
        (decideReadableItems (room - 1) items)
  | .object entries =>
      @instDecidableAnd _ _ (inferInstanceAs (Decidable (0 < room)))
        (@instDecidableAnd _ _
          (inferInstanceAs (Decidable (List.Pairwise _ entries)))
          (decideReadableEntries (room - 1) entries))

/-- Decides whether all values of a list can be read. -/
def decideReadableItems (room : Nat) :
    (items : List Json) → Decidable (ReadableItems room items)
  | [] => isTrue trivial
  | item :: rest =>
      @instDecidableAnd _ _ (decideReadable room item)
        (decideReadableItems room rest)

/-- Decides whether the values of all entries can be read. -/
def decideReadableEntries (room : Nat) :
    (entries : List (String × Json)) →
      Decidable (ReadableEntries room entries)
  | [] => isTrue trivial
  | (_, value) :: rest =>
      @instDecidableAnd _ _ (decideReadable room value)
        (decideReadableEntries room rest)

end

instance (room : Nat) (value : Json) : Decidable (Readable room value) :=
  decideReadable room value

theorem readableEntries_iff {room : Nat} {entries : List (String × Json)} :
    ReadableEntries room entries ↔
      ∀ entry ∈ entries, Readable room entry.2 := by
  induction entries with
  | nil => simp [ReadableEntries]
  | cons entry rest inductionHypothesis =>
      obtain ⟨key, value⟩ := entry
      rw [ReadableEntries, inductionHypothesis, List.forall_mem_cons]

mutual

theorem Readable.mono :
    ∀ (value : Json) {room more : Nat}, room ≤ more →
      Readable room value → Readable more value
  | .null, _, _, _, _ => trivial
  | .boolean _, _, _, _, _ => trivial
  | .number _, _, _, _, finite => finite
  | .string _, _, _, _, _ => trivial
  | .list items, room, more, atMost, readable => by
      obtain ⟨positive, readableItems⟩ := readable
      refine ⟨by omega, ?_⟩
      exact ReadableItems.mono items (by omega) readableItems
  | .object entries, room, more, atMost, readable => by
      obtain ⟨positive, ascending, readableEntries⟩ := readable
      refine ⟨by omega, ascending, ?_⟩
      exact ReadableEntries.mono entries (by omega) readableEntries

theorem ReadableItems.mono :
    ∀ (items : List Json) {room more : Nat}, room ≤ more →
      ReadableItems room items → ReadableItems more items
  | [], _, _, _, _ => trivial
  | item :: rest, _, _, atMost, readable =>
      ⟨Readable.mono item atMost readable.1,
        ReadableItems.mono rest atMost readable.2⟩

theorem ReadableEntries.mono :
    ∀ (entries : List (String × Json)) {room more : Nat}, room ≤ more →
      ReadableEntries room entries → ReadableEntries more entries
  | [], _, _, _, _ => trivial
  | (_, value) :: rest, _, _, atMost, readable =>
      ⟨Readable.mono value atMost readable.1,
        ReadableEntries.mono rest atMost readable.2⟩

end

/-! ## What is read is readable -/

theorem isFinite_of_value?
    {numeral : Numeral} {number : Number}
    (isValue : numeral.value? = some number) :
    number.isFinite = true := by
  have ofDouble : ∀ {digits : Nat} {exponent : Int},
      (Double.ofDecimal? numeral.negative digits exponent).map
          Number.double = some number →
        number.isFinite = true := by
    intro digits exponent read
    obtain ⟨value, isDouble, rfl⟩ := Option.map_eq_some_iff.mp read
    exact Double.isFinite_of_ofDecimal? isDouble
  unfold Numeral.value? at isValue
  dsimp only at isValue
  split at isValue
  · split at isValue
    · split at isValue
      · cases isValue
        rfl
      · exact ofDouble isValue
    · split at isValue
      · cases isValue
        rfl
      · exact ofDouble isValue
  · exact ofDouble isValue

mutual

theorem readable_of_json :
    ∀ (document : Document) {room : Nat} {value : Json},
      Reader.json room document = .ok value → Readable room value
  | .null, _, _, read => by
      cases read
      trivial
  | .boolean _, _, _, read => by
      cases read
      trivial
  | .number numeral, _, _, read => by
      simp only [Reader.json] at read
      split at read
      · cases read
      · rename_i isValue
        cases read
        exact isFinite_of_value? isValue
  | .string none, _, _, read => by
      cases read
  | .string (some _), _, _, read => by
      cases read
      trivial
  | .list items, room, _, read => by
      simp only [Reader.json] at read
      split at read
      · cases read
      · rename_i notZero
        split at read
        · cases read
        · rename_i values readItems
          cases read
          exact ⟨Nat.pos_of_ne_zero notZero,
            readableItems_of_jsonItems items readItems⟩
  | .object entries, room, _, read => by
      simp only [Reader.json] at read
      split at read
      · cases read
      · rename_i notZero
        split at read
        · cases read
        · rename_i values readEntries
          cases read
          have readable :=
            readableEntries_of_jsonEntries entries readEntries
              List.Pairwise.nil (readableEntries_iff.mp trivial)
          exact ⟨Nat.pos_of_ne_zero notZero, readable.1,
            readableEntries_iff.mpr readable.2⟩
  | .broken, _, _, read => by
      cases read

theorem readableItems_of_jsonItems :
    ∀ (documents : List Document) {room : Nat} {values : List Json},
      Reader.jsonItems room documents = .ok values →
        ReadableItems room values
  | [], _, _, read => by
      cases read
      trivial
  | document :: rest, room, _, read => by
      simp only [Reader.jsonItems] at read
      split at read
      · cases read
      · rename_i value readFirst
        split at read
        · cases read
        · rename_i values readRest
          cases read
          exact ⟨readable_of_json document readFirst,
            readableItems_of_jsonItems rest readRest⟩

theorem readableEntries_of_jsonEntries :
    ∀ (documents : List (Option String × Document)) {room : Nat}
      {before entries : List (String × Json)},
      Reader.jsonEntries room before documents = .ok entries →
        Entries.Ascending before →
          (∀ entry ∈ before, Readable room entry.2) →
            Entries.Ascending entries ∧
              ∀ entry ∈ entries, Readable room entry.2
  | [], _, _, _, read, ascending, readable => by
      cases read
      exact ⟨ascending, readable⟩
  | (none, _) :: _, _, _, _, read, _, _ => by
      cases read
  | (some key, document) :: rest, room, before, _, read, ascending,
      readable => by
      simp only [Reader.jsonEntries] at read
      split at read
      · cases read
      · rename_i value readFirst
        refine readableEntries_of_jsonEntries rest read
          (Entries.ascending_insert key value ascending) ?_
        intro entry member
        rcases Entries.mem_insert member with rfl | inBefore
        · exact readable_of_json document readFirst
        · exact readable entry inBefore

end

/-! ## What is readable is read -/

theorem json_number
    {number : Number} (finite : number.isFinite = true) (room : Nat) :
    Reader.json room number.document = .ok (.number number) := by
  rw [Number.document, if_pos finite]
  simp only [Reader.json, Number.value?_numeral finite]

mutual

theorem Readable.json_document :
    ∀ (value : Json) {room : Nat}, Readable room value →
      Reader.json room value.document = .ok value
  | .null, _, _ => rfl
  | .boolean _, _, _ => rfl
  | .number _, room, finite => json_number finite room
  | .string _, _, _ => rfl
  | .list items, room, readable => by
      have notZero : room ≠ 0 := Nat.ne_of_gt readable.1
      have read := ReadableItems.jsonItems_document items readable.2
      simp only [document, Reader.json, if_neg notZero, read]
  | .object entries, room, readable => by
      have notZero : room ≠ 0 := Nat.ne_of_gt readable.1
      have ascending : Entries.Ascending ([] ++ entries) := readable.2.1
      have read :=
        ReadableEntries.jsonEntries_document entries ascending readable.2.2
      simp only [document, Reader.json, if_neg notZero, read,
        List.nil_append]

theorem ReadableItems.jsonItems_document :
    ∀ (items : List Json) {room : Nat}, ReadableItems room items →
      Reader.jsonItems room (itemDocuments items) = .ok items
  | [], _, _ => rfl
  | item :: rest, room, readable => by
      have readFirst := Readable.json_document item readable.1
      have readRest := ReadableItems.jsonItems_document rest readable.2
      simp only [itemDocuments, Reader.jsonItems, readFirst, readRest]

theorem ReadableEntries.jsonEntries_document :
    ∀ (entries : List (String × Json)) {room : Nat}
      {before : List (String × Json)},
      Entries.Ascending (before ++ entries) → ReadableEntries room entries →
        Reader.jsonEntries room before (entryDocuments entries) =
          .ok (before ++ entries)
  | [], _, before, _, _ => by
      simp only [entryDocuments, Reader.jsonEntries, List.append_nil]
  | (key, value) :: rest, room, before, ascending, readable => by
      have readFirst := Readable.json_document value readable.1
      have above : ∀ entry ∈ before, entry.1 < key := fun entry member =>
        (List.pairwise_append.mp ascending).2.2 entry member (key, value)
          List.mem_cons_self
      have whole :
          before ++ (key, value) :: rest =
            (before ++ [(key, value)]) ++ rest := by
        rw [List.append_assoc, List.singleton_append]
      rw [whole] at ascending ⊢
      have readRest :=
        ReadableEntries.jsonEntries_document rest ascending readable.2
      simp only [entryDocuments, Reader.jsonEntries, readFirst,
        Entries.insert_of_above above, readRest]

end

theorem jsonObject_document
    {room : Nat} {entries : List (String × Json)}
    (readable : Readable room (.object entries)) :
    Reader.jsonObject room (document (.object entries)) = .ok entries := by
  obtain ⟨positive, ascending, readableEntries⟩ := readable
  obtain ⟨less, rfl⟩ := Nat.exists_eq_succ_of_ne_zero (Nat.ne_of_gt positive)
  have read :=
    @ReadableEntries.jsonEntries_document entries _ [] ascending
      readableEntries
  rw [List.nil_append] at read
  exact read

/-! ## More room -/

mutual

theorem json_mono :
    ∀ (document : Document) {room more : Nat} {value : Json}, room ≤ more →
      Reader.json room document = .ok value →
        Reader.json more document = .ok value
  | .null, _, _, _, _, read => read
  | .boolean _, _, _, _, _, read => read
  | .number _, _, _, _, _, read => by
      simp only [Reader.json] at read ⊢
      exact read
  | .string none, _, _, _, _, read => by
      cases read
  | .string (some _), _, _, _, _, read => read
  | .list items, room, more, _, atMost, read => by
      simp only [Reader.json] at read ⊢
      split at read
      · cases read
      · rename_i notZero
        have moreNotZero : more ≠ 0 := by omega
        split at read
        · cases read
        · rename_i values readItems
          have again :=
            jsonItems_mono items (by omega : room - 1 ≤ more - 1) readItems
          rw [if_neg moreNotZero, again]
          exact read
  | .object entries, room, more, _, atMost, read => by
      simp only [Reader.json] at read ⊢
      split at read
      · cases read
      · rename_i notZero
        have moreNotZero : more ≠ 0 := by omega
        split at read
        · cases read
        · rename_i values readEntries
          have again :=
            jsonEntries_mono entries (by omega : room - 1 ≤ more - 1)
              readEntries
          rw [if_neg moreNotZero, again]
          exact read
  | .broken, _, _, _, _, read => by
      cases read

theorem jsonItems_mono :
    ∀ (items : List Document) {room more : Nat} {values : List Json},
      room ≤ more → Reader.jsonItems room items = .ok values →
        Reader.jsonItems more items = .ok values
  | [], _, _, _, _, read => read
  | item :: rest, _, _, _, atMost, read => by
      simp only [Reader.jsonItems] at read ⊢
      split at read
      · cases read
      · rename_i value readFirst
        split at read
        · cases read
        · rename_i values readRest
          rw [json_mono item atMost readFirst,
            jsonItems_mono rest atMost readRest]
          exact read

theorem jsonEntries_mono :
    ∀ (entries : List (Option String × Document)) {room more : Nat}
      {before values : List (String × Json)},
      room ≤ more → Reader.jsonEntries room before entries = .ok values →
        Reader.jsonEntries more before entries = .ok values
  | [], _, _, _, _, _, read => read
  | (none, _) :: _, _, _, _, _, _, read => by
      cases read
  | (some _, document) :: rest, _, _, _, _, atMost, read => by
      simp only [Reader.jsonEntries] at read ⊢
      split at read
      · cases read
      · rename_i value readFirst
        rw [json_mono document atMost readFirst]
        exact jsonEntries_mono rest atMost read

end

/-- A value that can be read in some room can be read in all room in which its
document is read at all. -/
theorem readable_of_json_document
    {room more : Nat} {value result : Json} (readable : Readable more value)
    (read : Reader.json room value.document = .ok result) :
    Readable room value := by
  have readMore :=
    json_mono value.document (Nat.le_max_left room more) read
  have readValue :=
    (readable.mono value (Nat.le_max_right room more)).json_document
  cases readMore.symm.trans readValue
  exact readable_of_json value.document read

theorem readable_of_jsonObject_document
    {room more : Nat} {entries result : List (String × Json)}
    (readable : Readable more (.object entries))
    (read : Reader.jsonObject room (document (.object entries)) = .ok result) :
    Readable room (.object entries) := by
  cases room with
  | zero => cases read
  | succ less =>
      have readEntries :
          Reader.jsonEntries less [] (entryDocuments entries) = .ok result :=
        read
      refine @readable_of_json_document _ more _ (.object result) readable ?_
      simp only [document, Reader.json, if_neg (Nat.succ_ne_zero less),
        Nat.succ_sub_one, readEntries]

end TraceArchive.Json
