import TraceArchive.Proofs.Wire.Received

/-!
# Places of numbers that are not finite

Attributes are values within values. A conversion out of the binary form goes
through all of them and records each number that JSON cannot hold. The records
are compared here with a search: the places where there is such a number, in
their order.
-/

namespace TraceArchive

open Protobuf (Value)

/-! ## Places in values -/

/-- What is found at a place, with the path that leads there. A place tells the
position on each level. -/
abbrev Protobuf.Search := List Nat → Option (String × Value)

/-- What is found at a place inside of a value that stands at a path. -/
def Protobuf.Value.follow : Value → (path : String) → Protobuf.Search
  | value, path, [] => some (path, value)
  | .struct entries, path, position :: place =>
      entries[position]?.bind fun entry =>
        entry.2.follow (path ++ "." ++ entry.1) place
  | .list items, path, position :: place =>
      items[position]?.bind fun item =>
        item.follow (path ++ "[" ++ toString position ++ "]") place
  | _, _, _ :: _ => none

namespace Protobuf

def followAttributes (lead : String) (attributes : KeyMap Value) : Search
  | [] => none
  | position :: place =>
      attributes.entries[position]?.bind fun entry =>
        entry.2.follow (lead ++ "attributes." ++ entry.1) place

/-- What is found at a place in the attributes of a span, its events or its
links. -/
def Span.follow (span : Span) : Search
  | 0 :: place => followAttributes "" span.attributes place
  | 1 :: index :: place =>
      span.events[index]?.bind fun event =>
        followAttributes ("events[" ++ toString index ++ "].")
          event.attributes place
  | 2 :: index :: place =>
      span.links[index]?.bind fun link =>
        followAttributes ("links[" ++ toString index ++ "].")
          link.attributes place
  | _ => none

/-- What is found at a place in the assessments of a trace. -/
def TraceInfo.follow (info : TraceInfo) : Search
  | [] => none
  | index :: place =>
      info.assessments[index]?.bind fun entries =>
        (Value.struct entries).follow
          ("assessments" ++ "[" ++ toString index ++ "]") place

end Protobuf

/-! ## Records of numbers -/

/-- Whether a number that is not finite is found, namely that of a record. -/
def Wire.NotFinite.IsFound (record : Wire.NotFinite)
    (found : Option (String × Value)) : Prop :=
  found = some (record.path, .number record.value) ∧
    record.value.isFinite = false

/-- Whether records are those of all numbers that are not finite: one for each
place where there is such a number, in the order of the places. -/
def Protobuf.Search.Records (search : Protobuf.Search)
    (records : List Wire.NotFinite) : Prop :=
  ∃ placed : List (List Nat × Wire.NotFinite),
    placed.map Prod.snd = records ∧
      placed.Pairwise (fun earlier later => earlier.1 < later.1) ∧
        ∀ place record,
          (place, record) ∈ placed ↔ record.IsFound (search place)

namespace Protobuf.Search

theorem records_nil
    {search : Search}
    (nowhere : ∀ place record, ¬Wire.NotFinite.IsFound record (search place)) :
    search.Records [] := by
  refine ⟨[], rfl, List.Pairwise.nil, ?_⟩
  intro place record
  constructor
  · intro member
    cases member
  · intro isFound
    exact absurd isFound (nowhere place record)

theorem exists_cons_of_isFound
    {search : Search} {records : List Wire.NotFinite}
    (areAll : search.Records records) {place : List Nat}
    {record : Wire.NotFinite} (isFound : record.IsFound (search place)) :
    ∃ first rest, records = first :: rest := by
  obtain ⟨placed, rfl, _, isPlaced⟩ := areAll
  have member := (isPlaced place record).mpr isFound
  exact
    List.exists_cons_of_ne_nil
      (List.ne_nil_of_mem (List.mem_map_of_mem member))

/-- Places below the first position. -/
def below (placed : List (List Nat × Wire.NotFinite)) :
    List (List Nat × Wire.NotFinite) :=
  placed.map fun item => (0 :: item.1, item.2)

/-- Places after the first position. -/
def beyond (placed : List (List Nat × Wire.NotFinite)) :
    List (List Nat × Wire.NotFinite) :=
  placed.map fun item => (item.1.modifyHead (· + 1), item.2)

theorem mem_below
    {placed : List (List Nat × Wire.NotFinite)} {place : List Nat}
    {record : Wire.NotFinite} :
    (place, record) ∈ below placed ↔
      ∃ inner, place = 0 :: inner ∧ (inner, record) ∈ placed := by
  simp only [below, List.mem_map, Prod.mk.injEq, Prod.exists]
  constructor
  · rintro ⟨inner, _, member, rfl, rfl⟩
    exact ⟨inner, rfl, member⟩
  · rintro ⟨inner, rfl, member⟩
    exact ⟨inner, record, member, rfl, rfl⟩

theorem mem_beyond
    {placed : List (List Nat × Wire.NotFinite)}
    (notRoot : ∀ record, ([], record) ∉ placed) {place : List Nat}
    {record : Wire.NotFinite} :
    (place, record) ∈ beyond placed ↔
      ∃ position inner, place = (position + 1) :: inner ∧
        (position :: inner, record) ∈ placed := by
  simp only [beyond, List.mem_map, Prod.mk.injEq, Prod.exists]
  constructor
  · rintro ⟨inner, _, member, rfl, rfl⟩
    cases inner with
    | nil => exact absurd member (notRoot _)
    | cons position inner => exact ⟨position, inner, rfl, member⟩
  · rintro ⟨position, inner, rfl, member⟩
    exact ⟨position :: inner, record, member, rfl, rfl⟩

theorem modifyHead_lt
    {place other : List Nat} (less : place < other) :
    place.modifyHead (· + 1) < other.modifyHead (· + 1) := by
  cases other with
  | nil => cases less
  | cons later otherInner =>
      cases place with
      | nil => exact List.nil_lt_cons _ _
      | cons earlier inner =>
          simpa [List.cons_lt_cons_iff] using less

theorem pairwise_below_beyond
    {placed others : List (List Nat × Wire.NotFinite)}
    (ascending :
      placed.Pairwise fun earlier later => earlier.1 < later.1)
    (otherAscending :
      others.Pairwise fun earlier later => earlier.1 < later.1)
    (notRoot : ∀ record, ([], record) ∉ others) :
    (below placed ++ beyond others).Pairwise
      fun earlier later => earlier.1 < later.1 := by
  rw [List.pairwise_append]
  refine ⟨?_, ?_, ?_⟩
  · rw [below, List.pairwise_map]
    apply ascending.imp
    intro earlier later less
    exact List.cons_lt_cons_iff.mpr (Or.inr ⟨rfl, less⟩)
  · rw [beyond, List.pairwise_map]
    exact otherAscending.imp modifyHead_lt
  · rintro ⟨place, record⟩ member ⟨other, otherRecord⟩ otherMember
    obtain ⟨inner, rfl, _⟩ := mem_below.mp member
    obtain ⟨position, otherInner, rfl, _⟩ :=
      (mem_beyond notRoot).mp otherMember
    exact List.cons_lt_cons_iff.mpr (Or.inl (Nat.succ_pos position))

/-- The records of one position and of those after it make up all records. -/
theorem records_append
    {search first rest : Search} {records others : List Wire.NotFinite}
    (recordsFirst : first.Records records) (recordsRest : rest.Records others)
    (root : ∀ record, ¬Wire.NotFinite.IsFound record (search []))
    (rootOfRest : ∀ record, ¬Wire.NotFinite.IsFound record (rest []))
    (atFirst : ∀ place, search (0 :: place) = first place)
    (atRest :
      ∀ position place,
        search ((position + 1) :: place) = rest (position :: place)) :
    search.Records (records ++ others) := by
  obtain ⟨placed, rfl, ascending, isPlaced⟩ := recordsFirst
  obtain ⟨otherPlaced, rfl, otherAscending, isOtherPlaced⟩ := recordsRest
  have notRoot : ∀ record, ([], record) ∉ otherPlaced := by
    intro record member
    exact rootOfRest record ((isOtherPlaced [] record).mp member)
  refine
    ⟨below placed ++ beyond otherPlaced, ?_,
      pairwise_below_beyond ascending otherAscending notRoot, ?_⟩
  · simp only [below, beyond, List.map_append, List.map_map]
    rfl
  · intro place record
    rw [List.mem_append, mem_below, mem_beyond notRoot]
    rcases place with _ | ⟨_ | position, inner⟩
    · simpa using root record
    · simp [isPlaced, atFirst]
    · simp [isOtherPlaced, atRest]

theorem records_flatMap
    {Item : Type} (items : List Item) {index : Nat}
    (inside : Nat → Item → Search) (records : Nat → Item → List Wire.NotFinite)
    (each :
      ∀ position item, items[position]? = some item →
        (inside (index + position) item).Records
          (records (index + position) item))
    {search : Search}
    (root : ∀ record, ¬Wire.NotFinite.IsFound record (search []))
    (atPosition :
      ∀ position place,
        search (position :: place) =
          items[position]?.bind fun item =>
            inside (index + position) item place) :
    search.Records
      ((items.zipIdx index).flatMap fun item => records item.2 item.1) := by
  induction items generalizing index search with
  | nil =>
      apply records_nil
      intro place record
      cases place with
      | nil => exact root record
      | cons position place =>
          rw [atPosition]
          rintro ⟨found, _⟩
          cases found
  | cons item rest inductionHypothesis =>
      -- What is found in the rest stands one position later.
      let searchRest : Search := fun place =>
        match place with
        | [] => none
        | position :: place => search ((position + 1) :: place)
      have recordsRest :
          searchRest.Records
            ((rest.zipIdx (index + 1)).flatMap fun item =>
              records item.2 item.1) := by
        apply inductionHypothesis
        · intro position later isLater
          rw [Nat.add_right_comm]
          exact each (position + 1) later isLater
        · rintro record ⟨found, _⟩
          cases found
        · intro position place
          rw [Nat.add_right_comm]
          exact atPosition (position + 1) place
      rw [List.zipIdx_cons, List.flatMap_cons]
      apply records_append (each 0 item rfl) recordsRest root
      · rintro record ⟨found, _⟩
        cases found
      · exact atPosition 0
      · intro position place
        rfl

end Protobuf.Search

/-! ## What a conversion records -/

namespace Protobuf.Value

open AttributeValue (keyPath itemPath)

theorem keyPath_of_ne
    {path : String} (nonEmpty : path ≠ "") (key : String) :
    keyPath path key = path ++ "." ++ key := by
  unfold keyPath
  rw [if_neg]
  simpa using nonEmpty

theorem append_ne_empty
    {path : String} (nonEmpty : path ≠ "") (rest : String) :
    path ++ rest ≠ "" := by
  simp [nonEmpty]

theorem found_toJsonItems
    (path : String) (index : Nat) (items : List Value) :
    (toJsonItems path index items).2 =
      (items.zipIdx index).flatMap fun item =>
        (item.1.toJson (itemPath path item.2)).2 := by
  induction items generalizing index with
  | nil => rfl
  | cons item rest inductionHypothesis =>
      simp only [toJsonItems, List.zipIdx_cons, List.flatMap_cons,
        inductionHypothesis]

-- Entries are told apart by their keys; the index only makes them a row like
-- items.
theorem found_toJsonEntries
    {path : String} (nonEmpty : path ≠ "") (index : Nat)
    (entries : List (String × Value)) :
    (toJsonEntries path entries).2 =
      (entries.zipIdx index).flatMap fun entry =>
        (entry.1.2.toJson (path ++ "." ++ entry.1.1)).2 := by
  induction entries generalizing index with
  | nil => rfl
  | cons entry rest inductionHypothesis =>
      simp only [toJsonEntries, List.zipIdx_cons, List.flatMap_cons,
        inductionHypothesis (index + 1), keyPath_of_ne nonEmpty]

theorem not_isFound_of_inner
    {value : Value} {path : String} {record : Wire.NotFinite}
    (noNumber : ∀ number, value ≠ .number number) :
    ¬record.IsFound (value.follow path []) := by
  rintro ⟨found, _⟩
  unfold follow at found
  cases found
  exact noNumber _ rfl

theorem records_nil_of_simple
    {value : Value} {path : String}
    (noNumber : ∀ number, value ≠ .number number)
    (noInner : ∀ position place, value.follow path (position :: place) = none) :
    Search.Records (value.follow path) [] := by
  apply Search.records_nil
  intro place record
  cases place with
  | nil => exact not_isFound_of_inner noNumber
  | cons position place =>
      rw [noInner]
      rintro ⟨found, _⟩
      cases found

theorem records_number (value : Double) (path : String) :
    Search.Records ((Value.number value).follow path)
      ((Value.number value).toJson path).2 := by
  unfold toJson
  split
  · rename_i finite
    apply Search.records_nil
    rintro (_ | ⟨position, place⟩) record ⟨found, notFinite⟩
    · cases found
      rw [finite] at notFinite
      cases notFinite
    · cases found
  · rename_i notFinite
    refine
      ⟨[([], ⟨path, value⟩)], rfl, List.pairwise_singleton _ _, ?_⟩
    intro place record
    rw [List.mem_singleton]
    constructor
    · rintro ⟨⟩
      exact ⟨rfl, by simpa using notFinite⟩
    · rintro ⟨found, _⟩
      cases place with
      | nil =>
          cases found
          rfl
      | cons position place => cases found

mutual

/-- Every number that is not finite is recorded once, with the path to it. -/
theorem records_toJson :
    ∀ (value : Value) {path : String}, path ≠ "" →
      Search.Records (value.follow path) (value.toJson path).2
  | .absent, _, _ => records_nil_of_simple nofun fun _ _ => rfl
  | .null, _, _ => records_nil_of_simple nofun fun _ _ => rfl
  | .number value, path, _ => records_number value path
  | .string _, _, _ => records_nil_of_simple nofun fun _ _ => rfl
  | .boolean _, _, _ => records_nil_of_simple nofun fun _ _ => rfl
  | .struct entries, path, nonEmpty => by
      rw [toJson, found_toJsonEntries nonEmpty 0]
      apply
        Search.records_flatMap entries
          (fun _ entry => entry.2.follow (path ++ "." ++ entry.1))
          fun _ entry => (entry.2.toJson (path ++ "." ++ entry.1)).2
      · intro position entry isEntry
        exact
          records_toJsonEntries entries entry (List.mem_of_getElem? isEntry)
            (append_ne_empty (append_ne_empty nonEmpty _) _)
      · exact fun _ => not_isFound_of_inner nofun
      · exact fun _ _ => rfl
  | .list items, path, nonEmpty => by
      rw [toJson, found_toJsonItems]
      apply
        Search.records_flatMap items
          (fun position item => item.follow (itemPath path position))
          fun position item => (item.toJson (itemPath path position)).2
      · intro position item isItem
        exact
          records_toJsonItems items item (List.mem_of_getElem? isItem)
            (append_ne_empty (append_ne_empty (append_ne_empty nonEmpty _) _) _)
      · exact fun _ => not_isFound_of_inner nofun
      · intro position place
        rw [Nat.zero_add]
        rfl

theorem records_toJsonItems :
    ∀ (items : List Value), ∀ item ∈ items, ∀ {path : String}, path ≠ "" →
      Search.Records (item.follow path) (item.toJson path).2
  | item :: rest, other, member, path, nonEmpty => by
      rcases List.mem_cons.mp member with same | inRest
      · rw [same]
        exact records_toJson item nonEmpty
      · exact records_toJsonItems rest other inRest nonEmpty

theorem records_toJsonEntries :
    ∀ (entries : List (String × Value)), ∀ entry ∈ entries,
      ∀ {path : String}, path ≠ "" →
        Search.Records (entry.2.follow path) (entry.2.toJson path).2
  | (key, item) :: rest, other, member, path, nonEmpty => by
      rcases List.mem_cons.mp member with same | inRest
      · rw [same]
        exact records_toJson item nonEmpty
      · exact records_toJsonEntries rest other inRest nonEmpty

end

end Protobuf.Value

namespace Wire

open Protobuf (Search followAttributes)

theorem found_attributeList
    (lead : String) (index : Nat) (entries : List (String × Value)) :
    (attributeList lead entries).2 =
      (entries.zipIdx index).flatMap fun entry =>
        (entry.1.2.toJson (lead ++ "attributes." ++ entry.1.1)).2 := by
  induction entries generalizing index with
  | nil => rfl
  | cons entry rest inductionHypothesis =>
      simp only [attributeList, List.zipIdx_cons, List.flatMap_cons,
        inductionHypothesis (index + 1)]

theorem records_attributes (lead : String) (attributes : KeyMap Value) :
    Search.Records (followAttributes lead attributes)
      (attributesOfBinary lead attributes).2 := by
  rw [attributesOfBinary, found_attributeList lead 0]
  apply
    Search.records_flatMap attributes.entries
      (fun _ entry => entry.2.follow (lead ++ "attributes." ++ entry.1))
      fun _ entry => (entry.2.toJson (lead ++ "attributes." ++ entry.1)).2
  · intro position entry _
    exact Value.records_toJson entry.2 (by simp)
  · rintro record ⟨found, _⟩
    cases found
  · exact fun _ _ => rfl

theorem Event.found_ofBinaryList
    (index : Nat) (events : List Protobuf.Event) :
    (ofBinaryList index events).2 =
      (events.zipIdx index).flatMap fun event =>
        (attributesOfBinary ("events[" ++ toString event.2 ++ "].")
          event.1.attributes).2 := by
  induction events generalizing index with
  | nil => rfl
  | cons event rest inductionHypothesis =>
      simp only [ofBinaryList, ofBinary, List.zipIdx_cons, List.flatMap_cons,
        inductionHypothesis]

theorem Link.found_ofBinaryList
    (index : Nat) (links : List Protobuf.Link) :
    (ofBinaryList index links).2 =
      (links.zipIdx index).flatMap fun link =>
        (attributesOfBinary ("links[" ++ toString link.2 ++ "].")
          link.1.attributes).2 := by
  induction links generalizing index with
  | nil => rfl
  | cons link rest inductionHypothesis =>
      simp only [ofBinaryList, ofBinary, List.zipIdx_cons, List.flatMap_cons,
        inductionHypothesis]

theorem records_elements
    {Element : Type} (elements : List Element) (lead : Nat → String)
    (attributes : Element → KeyMap Value) {search : Search}
    (root : search [] = none)
    (atPosition :
      ∀ position place,
        search (position :: place) =
          elements[position]?.bind fun element =>
            followAttributes (lead position) (attributes element) place) :
    search.Records
      ((elements.zipIdx 0).flatMap fun element =>
        (attributesOfBinary (lead element.2) (attributes element.1)).2) := by
  apply
    Search.records_flatMap elements
      (fun index element => followAttributes (lead index) (attributes element))
      fun index element =>
        (attributesOfBinary (lead index) (attributes element)).2
  · exact fun _ _ _ => records_attributes _ _
  · rintro record ⟨found, _⟩
    rw [root] at found
    cases found
  · intro position place
    rw [Nat.zero_add]
    exact atPosition position place

/-- The numbers of all attributes of a span, of its events and of its links, in
this order. -/
theorem records_span (span : Protobuf.Span) :
    Search.Records span.follow
      ((attributesOfBinary "" span.attributes).2 ++
        (Event.ofBinaryList 0 span.events).2 ++
        (Link.ofBinaryList 0 span.links).2) := by
  rw [Event.found_ofBinaryList, Link.found_ofBinaryList]
  let parts : List (Search × List NotFinite) :=
    [(followAttributes "" span.attributes,
        (attributesOfBinary "" span.attributes).2),
      (fun place => span.follow (1 :: place),
        (span.events.zipIdx 0).flatMap fun event =>
          (attributesOfBinary ("events[" ++ toString event.2 ++ "].")
            event.1.attributes).2),
      (fun place => span.follow (2 :: place),
        (span.links.zipIdx 0).flatMap fun link =>
          (attributesOfBinary ("links[" ++ toString link.2 ++ "].")
            link.1.attributes).2)]
  have inParts : ∀ part ∈ parts, part.1.Records part.2 := by
    simp only [parts, List.forall_mem_cons]
    refine ⟨records_attributes "" span.attributes, ?_, ?_, List.forall_mem_nil _⟩
    · exact
        records_elements span.events
          (fun index => "events[" ++ toString index ++ "].")
          Protobuf.Event.attributes rfl fun _ _ => rfl
    · exact
        records_elements span.links
          (fun index => "links[" ++ toString index ++ "].")
          Protobuf.Link.attributes rfl fun _ _ => rfl
  have inRow :
      Search.Records span.follow
        ((parts.zipIdx 0).flatMap fun part => part.1.2) := by
    apply
      Search.records_flatMap parts (fun _ part => part.1) fun _ part => part.2
    · exact fun _ part isPart => inParts part (List.mem_of_getElem? isPart)
    · rintro record ⟨found, _⟩
      cases found
    · intro position place
      rcases position with _ | _ | _ | position
      · rfl
      · rfl
      · rfl
      · rfl
  simpa [parts, List.append_assoc] using inRow

end Wire

end TraceArchive
