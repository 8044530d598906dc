import TraceArchive.KeyMap

/-!
# Looking up entries

What a map holds under a key after an operation, and which entries an operation
can bring in.
-/

namespace TraceArchive

/-! ## Ordered lists of entries -/

namespace Entries

variable {Value : Type}

@[simp]
theorem find?_insert_self
    (key : String) (value : Value) (entries : List (String × Value)) :
    find? key (insert key value entries) = some value := by
  induction entries with
  | nil => simp [insert, find?]
  | cons head rest inductionHypothesis =>
      obtain ⟨headKey, held⟩ := head
      unfold insert
      split
      · simp [find?]
      · split
        · simp [find?]
        · rename_i different
          simp [find?, different, inductionHypothesis]

theorem find?_insert_of_ne
    {key other : String} (different : other ≠ key) (value : Value)
    (entries : List (String × Value)) :
    find? other (insert key value entries) = find? other entries := by
  induction entries with
  | nil => simp [insert, find?, different]
  | cons head rest inductionHypothesis =>
      obtain ⟨headKey, held⟩ := head
      unfold insert
      split
      · simp [find?, different]
      · split
        · rename_i same
          subst same
          simp [find?, different]
        · by_cases atHead : other = headKey
          · simp [find?, atHead]
          · simp [find?, atHead, inductionHypothesis]

theorem mem_of_find?
    {key : String} {value : Value} {entries : List (String × Value)}
    (found : find? key entries = some value) :
    (key, value) ∈ entries := by
  induction entries with
  | nil => simp [find?] at found
  | cons head rest inductionHypothesis =>
      obtain ⟨headKey, held⟩ := head
      unfold find? at found
      split at found
      · rename_i same
        cases found
        simp [same]
      · exact List.mem_cons_of_mem _ (inductionHypothesis found)

/-- In an ascending list an entry is found under its key. -/
theorem find?_of_mem
    {entries : List (String × Value)} (ascending : Ascending entries)
    {key : String} {value : Value} (member : (key, value) ∈ entries) :
    find? key entries = some value := by
  induction entries with
  | nil => simp at member
  | cons head rest inductionHypothesis =>
      obtain ⟨headKey, held⟩ := head
      rcases List.mem_cons.mp member with atHead | inRest
      · cases atHead
        simp [find?]
      · have headLess : headKey < key :=
          List.rel_of_pairwise_cons ascending inRest
        have different : key ≠ headKey := by
          rintro rfl
          exact Std.lt_irrefl headLess
        simpa [find?, different] using
          inductionHypothesis (List.Pairwise.of_cons ascending) inRest

theorem insert_of_above
    {key : String} {entries : List (String × Value)}
    (above : ∀ entry ∈ entries, entry.1 < key) (value : Value) :
    insert key value entries = entries ++ [(key, value)] := by
  induction entries with
  | nil => rfl
  | cons head rest inductionHypothesis =>
      obtain ⟨headKey, held⟩ := head
      have headLess : headKey < key := above (headKey, held) List.mem_cons_self
      have notLess : ¬ key < headKey :=
        fun less => Std.lt_irrefl (String.lt_trans headLess less)
      have different : key ≠ headKey := by
        rintro rfl
        exact Std.lt_irrefl headLess
      have others := inductionHypothesis fun entry member =>
        above entry (List.mem_cons_of_mem _ member)
      rw [insert, if_neg notLess, if_neg different, others, List.cons_append]

/-- Nothing changes when a key gets the value that it has. -/
theorem insert_of_mem
    {entries : List (String × Value)} (ascending : Ascending entries)
    {key : String} {value : Value} (member : (key, value) ∈ entries) :
    insert key value entries = entries := by
  induction entries with
  | nil => simp at member
  | cons head rest inductionHypothesis =>
      obtain ⟨headKey, held⟩ := head
      rcases List.mem_cons.mp member with atHead | inRest
      · cases atHead
        rw [insert, if_neg (Std.lt_irrefl), if_pos rfl]
      · have headLess : headKey < key :=
          List.rel_of_pairwise_cons ascending inRest
        have notLess : ¬ key < headKey :=
          fun less => Std.lt_irrefl (String.lt_trans headLess less)
        have different : key ≠ headKey := by
          rintro rfl
          exact Std.lt_irrefl headLess
        rw [insert, if_neg notLess, if_neg different,
          inductionHypothesis (List.Pairwise.of_cons ascending) inRest]

theorem find?_of_below
    {key : String} {entries : List (String × Value)}
    (below : ∀ entry ∈ entries, key < entry.1) :
    find? key entries = none := by
  induction entries with
  | nil => rfl
  | cons head rest inductionHypothesis =>
      obtain ⟨headKey, held⟩ := head
      have headLess : key < headKey := below (headKey, held) List.mem_cons_self
      have different : key ≠ headKey := by
        rintro rfl
        exact Std.lt_irrefl headLess
      rw [find?, if_neg different]
      exact inductionHypothesis fun entry member =>
        below entry (List.mem_cons_of_mem _ member)

theorem find?_map
    {Result : Type} (function : Value → Result) (key : String)
    (entries : List (String × Value)) :
    find? key (entries.map fun entry => (entry.1, function entry.2)) =
      (find? key entries).map function := by
  induction entries with
  | nil => rfl
  | cons head rest inductionHypothesis =>
      obtain ⟨headKey, held⟩ := head
      by_cases same : key = headKey
      · simp [find?, same]
      · simp [find?, same, inductionHypothesis]

/-- The order of entries is that of their keys. -/
theorem Ascending.of_keys
    {Other : Type} {entries : List (String × Value)}
    {others : List (String × Other)}
    (ascending : Ascending entries)
    (sameKeys : others.map Prod.fst = entries.map Prod.fst) :
    Ascending others := by
  have ofKeys : (entries.map Prod.fst).Pairwise (· < ·) :=
    List.pairwise_map.mpr ascending
  rw [← sameKeys] at ofKeys
  exact List.pairwise_map.mp ofKeys

theorem find?_erase_self
    (key : String) (entries : List (String × Value)) :
    find? key (erase key entries) = none := by
  induction entries with
  | nil => rfl
  | cons head rest inductionHypothesis =>
      by_cases same : head.1 = key
      · rw [erase, List.filter_cons_of_neg (by simpa using same)]
        exact inductionHypothesis
      · rw [erase, List.filter_cons_of_pos (by simpa using same), find?,
          if_neg (Ne.symm same)]
        exact inductionHypothesis

theorem find?_erase_of_ne
    {key other : String} (different : other ≠ key)
    (entries : List (String × Value)) :
    find? other (erase key entries) = find? other entries := by
  induction entries with
  | nil => rfl
  | cons head rest inductionHypothesis =>
      by_cases same : head.1 = key
      · have notOther : ¬other = head.1 :=
          fun isHead => different (isHead.trans same)
        rw [erase, List.filter_cons_of_neg (by simpa using same), find?,
          if_neg notOther]
        exact inductionHypothesis
      · rw [erase, List.filter_cons_of_pos (by simpa using same), find?, find?]
        by_cases isHead : other = head.1
        · rw [if_pos isHead, if_pos isHead]
        · rw [if_neg isHead, if_neg isHead]
          exact inductionHypothesis

/-- An entry is among the first ones of a given number if fewer keys than that
are less than its own. -/
theorem mem_take_iff
    {entries : List (String × Value)} (ascending : Ascending entries)
    {count : Nat} {entry : String × Value} :
    entry ∈ entries.take count ↔
      entry ∈ entries ∧
        ((entries.map Prod.fst).filter (fun key => key < entry.1)).length <
          count := by
  induction entries generalizing count with
  | nil => simp
  | cons head rest inductionHypothesis =>
      obtain ⟨above, restAscending⟩ := List.pairwise_cons.mp ascending
      cases count with
      | zero => simp
      | succ count =>
          rw [List.take_succ_cons, List.mem_cons, List.mem_cons, List.map_cons,
            inductionHypothesis restAscending]
          by_cases inRest : entry ∈ rest
          · have headLess : head.1 < entry.1 := above entry inRest
            have different : entry ≠ head := by
              rintro rfl
              exact Std.lt_irrefl headLess
            rw [List.filter_cons_of_pos (by simpa using headLess),
              List.length_cons]
            simp only [different, inRest, false_or, true_and,
              Nat.add_lt_add_iff_right]
          · simp only [inRest, false_and, or_false]
            refine ⟨fun isHead => ⟨isHead, ?_⟩, And.left⟩
            subst isHead
            have noneLess :
                (entry.1 :: rest.map Prod.fst).filter
                    (fun key => key < entry.1) =
                  [] := by
              refine List.filter_eq_nil_iff.mpr ?_
              intro key member
              have notLess : ¬key < entry.1 := by
                rcases List.mem_cons.mp member with rfl | inKeys
                · exact Std.lt_irrefl
                · obtain ⟨other, isOther, rfl⟩ := List.mem_map.mp inKeys
                  exact fun less =>
                    Std.lt_irrefl (String.lt_trans less (above other isOther))
              simpa using notLess
            rw [noneLess]
            exact Nat.zero_lt_succ count

end Entries

/-! ## Maps -/

namespace KeyMap

variable {Value : Type}

@[simp]
theorem find?_insert_self
    (map : KeyMap Value) (key : String) (value : Value) :
    (map.insert key value).find? key = some value :=
  Entries.find?_insert_self key value map.entries

theorem find?_insert_of_ne
    (map : KeyMap Value) {key other : String} (different : other ≠ key)
    (value : Value) :
    (map.insert key value).find? other = map.find? other :=
  Entries.find?_insert_of_ne different value map.entries

theorem find?_erase_self (map : KeyMap Value) (key : String) :
    (map.erase key).find? key = none :=
  Entries.find?_erase_self key map.entries

theorem find?_erase_of_ne
    (map : KeyMap Value) {key other : String} (different : other ≠ key) :
    (map.erase key).find? other = map.find? other :=
  Entries.find?_erase_of_ne different map.entries

theorem mem_entries_iff
    {map : KeyMap Value} {key : String} {value : Value} :
    (key, value) ∈ map.entries ↔ map.find? key = some value :=
  ⟨Entries.find?_of_mem map.ascending, Entries.mem_of_find?⟩

/-- A map is determined by what it holds under each key. -/
theorem ext_find?
    {left right : KeyMap Value}
    (same : ∀ key, left.find? key = right.find? key) : left = right := by
  have nodup :
      ∀ map : KeyMap Value, map.entries.Nodup := by
    intro map
    apply map.ascending.imp
    rintro entry _ less rfl
    exact Std.lt_irrefl less
  have perm : left.entries.Perm right.entries := by
    rw [List.perm_ext_iff_of_nodup (nodup left) (nodup right)]
    rintro ⟨key, value⟩
    rw [mem_entries_iff, mem_entries_iff, same]
  apply ext
  refine perm.eq_of_pairwise ?_ left.ascending right.ascending
  intro entry other _ _ less greater
  exact absurd (String.lt_trans less greater) Std.lt_irrefl

/-- Every entry after putting entries in was there or was put in. -/
theorem mem_insertAll
    {map : KeyMap Value} {entries : List (String × Value)}
    {entry : String × Value}
    (member : entry ∈ (map.insertAll entries).entries) :
    entry ∈ map.entries ∨ entry ∈ entries := by
  induction entries generalizing map with
  | nil => exact Or.inl member
  | cons head rest inductionHypothesis =>
      rcases @inductionHypothesis (map.insert head.1 head.2) member with
        inInsert | inRest
      · rcases Entries.mem_insert inInsert with same | before
        · exact Or.inr (same ▸ List.mem_cons_self)
        · exact Or.inl before
      · exact Or.inr (List.mem_cons_of_mem _ inRest)

theorem mem_of_mem_ofList
    {entries : List (String × Value)} {entry : String × Value}
    (member : entry ∈ (ofList entries).entries) :
    entry ∈ entries := by
  rcases mem_insertAll member with inEmpty | inList
  · simp [empty] at inEmpty
  · exact inList

/-- Entries in ascending order that all come after those of a map are put at
its end. -/
theorem entries_insertAll
    {map : KeyMap Value} {entries : List (String × Value)}
    (ascending : Entries.Ascending (map.entries ++ entries)) :
    (map.insertAll entries).entries = map.entries ++ entries := by
  induction entries generalizing map with
  | nil => exact (List.append_nil _).symm
  | cons head rest inductionHypothesis =>
      obtain ⟨key, value⟩ := head
      have above : ∀ entry ∈ map.entries, entry.1 < key :=
        fun entry member =>
          (List.pairwise_append.mp ascending).2.2 entry member (key, value)
            List.mem_cons_self
      have inserted :
          (map.insert key value).entries = map.entries ++ [(key, value)] :=
        Entries.insert_of_above above value
      have whole :
          (map.insert key value).entries ++ rest =
            map.entries ++ (key, value) :: rest := by
        rw [inserted, List.append_assoc, List.singleton_append]
      have others := inductionHypothesis (whole.symm ▸ ascending)
      exact others.trans whole

/-- The map of entries in ascending order has just these entries. -/
theorem entries_ofList
    {entries : List (String × Value)}
    (ascending : Entries.Ascending entries) :
    (ofList entries).entries = entries :=
  entries_insertAll ascending

theorem ofList_concat
    (entries : List (String × Value)) (key : String) (value : Value) :
    ofList (entries ++ [(key, value)]) = (ofList entries).insert key value := by
  rw [ofList, insertAll, List.foldl_append]
  rfl

theorem ofList_entries (map : KeyMap Value) : ofList map.entries = map :=
  ext (entries_ofList map.ascending)

/-- Entries that are there already change nothing. -/
theorem insertAll_of_subset
    (map : KeyMap Value) {entries : List (String × Value)}
    (subset : entries ⊆ map.entries) : map.insertAll entries = map := by
  induction entries with
  | nil => rfl
  | cons head rest inductionHypothesis =>
      obtain ⟨key, value⟩ := head
      rw [List.cons_subset] at subset
      have unchanged : map.insert key value = map :=
        ext (Entries.insert_of_mem map.ascending subset.1)
      rw [insertAll, List.foldl_cons, unchanged]
      exact inductionHypothesis subset.2

@[simp]
theorem union_self (map : KeyMap Value) : map.union map = map :=
  map.insertAll_of_subset (List.Subset.refl _)

theorem find?_insertAll
    (map : KeyMap Value) {entries : List (String × Value)}
    (ascending : Entries.Ascending entries) (key : String) :
    (map.insertAll entries).find? key =
      (Entries.find? key entries).or (map.find? key) := by
  induction entries generalizing map with
  | nil => rfl
  | cons head rest inductionHypothesis =>
      obtain ⟨headKey, held⟩ := head
      have others :=
        inductionHypothesis (map.insert headKey held)
          (List.Pairwise.of_cons ascending)
      rw [insertAll, List.foldl_cons]
      refine others.trans ?_
      by_cases same : key = headKey
      · subst same
        have absent : Entries.find? key rest = none :=
          Entries.find?_of_below fun entry member =>
            List.rel_of_pairwise_cons ascending member
        rw [absent, find?_insert_self, Entries.find?, if_pos rfl]
        rfl
      · rw [find?_insert_of_ne map same, Entries.find?, if_neg same]

/-- Under a key the union has what the second map has there, else what the first
map has. -/
theorem find?_union (map overriding : KeyMap Value) (key : String) :
    (map.union overriding).find? key =
      (overriding.find? key).or (map.find? key) :=
  map.find?_insertAll overriding.ascending key

theorem find?_mapValues
    {Result : Type} (map : KeyMap Value) (function : Value → Result)
    (key : String) :
    (map.mapValues function).find? key = (map.find? key).map function :=
  Entries.find?_map function key map.entries

theorem take_of_size_le
    {map : KeyMap Value} {count : Nat} (fits : map.size ≤ count) :
    map.take count = map :=
  ext (List.take_of_length_le fits)

theorem size_take (map : KeyMap Value) (count : Nat) :
    (map.take count).size = min count map.size :=
  List.length_take

theorem take_take (map : KeyMap Value) (count other : Nat) :
    (map.take count).take other = map.take (min count other) := by
  apply ext
  change (map.entries.take count).take other = _
  rw [List.take_take, Nat.min_comm]
  rfl

/-- The first entries of a given number are those with fewer lesser keys. -/
theorem mem_take_iff
    {map : KeyMap Value} {count : Nat} {entry : String × Value} :
    entry ∈ (map.take count).entries ↔
      entry ∈ map.entries ∧
        (map.keys.filter (fun key => key < entry.1)).length < count :=
  Entries.mem_take_iff map.ascending

theorem mem_of_mem_take
    {map : KeyMap Value} {count : Nat} {entry : String × Value}
    (member : entry ∈ (map.take count).entries) :
    entry ∈ map.entries :=
  List.mem_of_mem_take member

theorem size_take_le (map : KeyMap Value) (count : Nat) :
    (map.take count).size ≤ count :=
  List.length_take_le count map.entries

/-- The key at a position parts the entries before the position from those
after. -/
theorem splitAt_of_key
    {map : KeyMap Value} {count : Nat} {key : String}
    (isKey : map.keys[count]? = some key) :
    (map.splitAt key).1 = map.take count ∧
      (map.splitAt key).2.size = map.size - count := by
  rw [keys, List.getElem?_map, Option.map_eq_some_iff] at isKey
  obtain ⟨entry, isEntry, rfl⟩ := isKey
  obtain ⟨within, isAt⟩ := List.getElem?_eq_some_iff.mp isEntry
  have rest :
      map.entries.drop count = entry :: map.entries.drop (count + 1) := by
    rw [List.drop_eq_getElem_cons within, isAt]
  have ascending := map.ascending
  rw [Entries.Ascending, ← List.take_append_drop count map.entries,
    List.pairwise_append, rest, List.pairwise_cons] at ascending
  obtain ⟨_, ⟨above, _⟩, across⟩ := ascending
  have before :
      ∀ other ∈ map.entries.take count, other.1 < entry.1 :=
    fun other member => across other member entry List.mem_cons_self
  have notBefore : ∀ other ∈ map.entries.drop count, ¬other.1 < entry.1 := by
    intro other member
    rw [rest] at member
    rcases List.mem_cons.mp member with rfl | later
    · exact Std.lt_irrefl
    · exact fun less =>
        Std.lt_irrefl (String.lt_trans less (above other later))
  have kept :
      (map.entries.take count ++ map.entries.drop count).filter
          (fun other => other.1 < entry.1) =
        map.entries.take count := by
    rw [List.filter_append, List.filter_eq_self.mpr (by simpa using before),
      List.filter_eq_nil_iff.mpr (by simpa using notBefore), List.append_nil]
  have removed :
      (map.entries.take count ++ map.entries.drop count).filter
          (fun other => ¬other.1 < entry.1) =
        map.entries.drop count := by
    rw [List.filter_append, List.filter_eq_nil_iff.mpr (by simpa using before),
      List.filter_eq_self.mpr (by simpa using notBefore), List.nil_append]
  rw [List.take_append_drop] at kept removed
  exact
    ⟨ext kept, (congrArg List.length removed).trans List.length_drop⟩

end KeyMap

end TraceArchive
