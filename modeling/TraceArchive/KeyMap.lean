/-!
# Maps from text keys

A map is the list of its entries in strictly ascending order of the keys, which
is the order of their code points. The operations on lists keep that order, so
two maps with the same entries are equal.
-/

namespace TraceArchive

/-! ## Ordered lists of entries -/

namespace Entries

variable {Value : Type}

/-- Every key is less than the keys after it. -/
def Ascending (entries : List (String × Value)) : Prop :=
  entries.Pairwise (fun earlier later => earlier.1 < later.1)

/-- Puts a value under a key, in place of the value that was there. -/
def insert (key : String) (value : Value) :
    List (String × Value) → List (String × Value)
  | [] => [(key, value)]
  | (head, held) :: rest =>
      if key < head then (key, value) :: (head, held) :: rest
      else if key = head then (key, value) :: rest
      else (head, held) :: insert key value rest

/-- The value under a key. -/
def find? (key : String) : List (String × Value) → Option Value
  | [] => none
  | (head, held) :: rest =>
      if key = head then some held else find? key rest

/-- Leaves out the entry under a key. -/
def erase (key : String) (entries : List (String × Value)) :
    List (String × Value) :=
  entries.filter (fun entry => entry.1 ≠ key)

theorem mem_insert
    {key : String} {value : Value} {entry : String × Value}
    {entries : List (String × Value)}
    (member : entry ∈ insert key value entries) :
    entry = (key, value) ∨ entry ∈ entries := by
  induction entries with
  | nil => simpa [insert] using member
  | cons head rest inductionHypothesis =>
      obtain ⟨headKey, held⟩ := head
      unfold insert at member
      split at member
      · simpa using member
      · split at member
        · rcases List.mem_cons.mp member with equal | inRest
          · exact Or.inl equal
          · exact Or.inr (List.mem_cons_of_mem _ inRest)
        · rcases List.mem_cons.mp member with equal | inInsert
          · exact Or.inr (equal ▸ List.mem_cons_self)
          · rcases inductionHypothesis inInsert with equal | inRest
            · exact Or.inl equal
            · exact Or.inr (List.mem_cons_of_mem _ inRest)

theorem ascending_insert
    (key : String) (value : Value) {entries : List (String × Value)}
    (ascending : Ascending entries) :
    Ascending (insert key value entries) := by
  induction entries with
  | nil => simp [insert, Ascending]
  | cons head rest inductionHypothesis =>
      obtain ⟨headKey, held⟩ := head
      have restAscending : Ascending rest := List.Pairwise.of_cons ascending
      have headLess :
          ∀ entry ∈ rest, headKey < entry.1 :=
        fun entry member => List.rel_of_pairwise_cons ascending member
      unfold insert
      split
      · rename_i keyLess
        refine List.Pairwise.cons ?_ ascending
        intro entry member
        rcases List.mem_cons.mp member with equal | inRest
        · simpa [equal] using keyLess
        · exact String.lt_trans keyLess (headLess entry inRest)
      · split
        · rename_i equalKeys
          subst equalKeys
          exact List.Pairwise.cons headLess restAscending
        · rename_i notLess notEqual
          refine List.Pairwise.cons ?_ (inductionHypothesis restAscending)
          intro entry member
          rcases mem_insert member with equal | inRest
          · subst equal
            rcases Std.le_iff_lt_or_eq.mp (Std.not_lt.mp notLess) with
              less | same
            · exact less
            · exact absurd same.symm notEqual
          · exact headLess entry inRest

theorem ascending_erase
    (key : String) {entries : List (String × Value)}
    (ascending : Ascending entries) :
    Ascending (erase key entries) :=
  List.Pairwise.filter _ ascending

theorem ascending_mapValues
    {Result : Type} (function : Value → Result)
    {entries : List (String × Value)}
    (ascending : Ascending entries) :
    Ascending (entries.map (fun entry => (entry.1, function entry.2))) := by
  simpa [Ascending, List.pairwise_map] using ascending

end Entries

/-! ## Maps -/

/-- A finite map from text keys to values. -/
structure KeyMap (Value : Type) where
  /-- The entries in ascending order of their keys. -/
  entries : List (String × Value)
  ascending : Entries.Ascending entries

namespace KeyMap

variable {Value : Type}

@[ext]
theorem ext
    {left right : KeyMap Value}
    (equal : left.entries = right.entries) :
    left = right := by
  cases left
  cases right
  simp_all

instance [DecidableEq Value] : DecidableEq (KeyMap Value) :=
  fun left right =>
    decidable_of_iff (left.entries = right.entries)
      ⟨ext, fun equal => equal ▸ rfl⟩

/-- The map without entries. -/
def empty : KeyMap Value :=
  ⟨[], List.Pairwise.nil⟩

instance : Inhabited (KeyMap Value) :=
  ⟨empty⟩

/-- Whether the map has no entries. -/
def isEmpty (map : KeyMap Value) : Bool :=
  map.entries.isEmpty

/-- The number of keys. -/
def size (map : KeyMap Value) : Nat :=
  map.entries.length

/-- The keys in ascending order. -/
def keys (map : KeyMap Value) : List String :=
  map.entries.map Prod.fst

/-- The value under a key. -/
def find? (map : KeyMap Value) (key : String) : Option Value :=
  Entries.find? key map.entries

/-- Whether a key has a value. -/
def contains (map : KeyMap Value) (key : String) : Bool :=
  (map.find? key).isSome

/-- Puts a value under a key, in place of the value that was there. -/
def insert (map : KeyMap Value) (key : String) (value : Value) :
    KeyMap Value :=
  ⟨Entries.insert key value map.entries,
    Entries.ascending_insert key value map.ascending⟩

/-- Leaves out the entry under a key. -/
def erase (map : KeyMap Value) (key : String) : KeyMap Value :=
  ⟨Entries.erase key map.entries, Entries.ascending_erase key map.ascending⟩

/-- Puts the entries of a list in, one after another: of two entries with one
key the later counts. -/
def insertAll (map : KeyMap Value) (entries : List (String × Value)) :
    KeyMap Value :=
  entries.foldl (fun result entry => result.insert entry.1 entry.2) map

/-- The map of the entries of a list, of which the last under a key counts. -/
def ofList (entries : List (String × Value)) : KeyMap Value :=
  empty.insertAll entries

/-- All entries of both maps; under a shared key the second map counts. -/
def union (map overriding : KeyMap Value) : KeyMap Value :=
  map.insertAll overriding.entries

/-- The first entries in key order. -/
def take (map : KeyMap Value) (count : Nat) : KeyMap Value :=
  ⟨map.entries.take count,
    List.Pairwise.sublist (List.take_sublist count map.entries) map.ascending⟩

/-- The entries under the keys before a key, and the entries from that key
on. -/
def splitAt (map : KeyMap Value) (key : String) :
    KeyMap Value × KeyMap Value :=
  (⟨map.entries.filter (fun entry => entry.1 < key),
      List.Pairwise.filter _ map.ascending⟩,
    ⟨map.entries.filter (fun entry => ¬entry.1 < key),
      List.Pairwise.filter _ map.ascending⟩)

/-- Applies a function to every value. -/
def mapValues {Result : Type} (map : KeyMap Value)
    (function : Value → Result) : KeyMap Result :=
  ⟨map.entries.map (fun entry => (entry.1, function entry.2)),
    Entries.ascending_mapValues function map.ascending⟩

end KeyMap

end TraceArchive
