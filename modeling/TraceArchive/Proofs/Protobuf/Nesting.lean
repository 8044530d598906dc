import TraceArchive.Proofs.Protobuf.Bytes
import TraceArchive.Proofs.Protobuf.Ordered

/-!
# How deep a value can nest

Reading a value takes one message for a list or a map in it, one for each item
of a list, and two for each entry of a map. A value that was written is read
again if and only if there is room for all of them.
-/

namespace TraceArchive.Protobuf

/-! ## Entries of maps -/

section Entries

variable {Content : Type} {initial : Content}
  {readValue : Content → Payload → Option Content}

theorem absorbEntry_value (key : String) (payload : Payload) :
    absorbEntry readValue (key, initial) ⟨2, payload⟩ =
      (readValue initial payload).map fun content => (key, content) :=
  rfl

/-- An entry that was written is read as its key and what is read of its
value. -/
theorem readEntry_encodeFields
    {valueFields : List Field} {outcome : Option Content} {key : String}
    (reads :
      Reads entrySchema (absorbEntry readValue) (key, initial) valueFields
        (outcome.map fun content => (key, content)))
    (room : Nat)
    (short :
      (encodeFields ((if key.isEmpty then [] else [⟨1, .ofText key⟩]) ++
        valueFields)).length < UInt64.size) :
    readEntry room initial readValue
        (encodeFields ((if key.isEmpty then [] else [⟨1, .ofText key⟩]) ++
          valueFields)) =
      outcome.map fun content => (key, content) := by
  have readsAll :
      Reads entrySchema (absorbEntry readValue) ("", initial)
        ((if key.isEmpty then [] else [⟨1, .ofText key⟩]) ++ valueFields)
        (outcome.map fun content => (key, content)) := by
    split
    · rename_i isEmpty
      obtain rfl : key = "" := String.isEmpty_iff.mp isEmpty
      exact reads
    · refine .cons rfl (fun _ => ?_) reads
      simp only [absorbEntry, if_true, Payload.text?_ofText, Option.map_some]
  exact readsAll.merge room short

end Entries

namespace Value

/-! ## Levels -/

mutual

/-- How many messages there are inside a value, one inside the other. -/
def levels : Value → Nat
  | .struct entries => 1 + levelsOfEntries entries
  | .list items => 1 + levelsOfItems items
  | _ => 0

/-- How many messages there are inside a map, one inside the other. -/
def levelsOfEntries : List (String × Value) → Nat
  | [] => 0
  | (_, value) :: rest => max (2 + levels value) (levelsOfEntries rest)

/-- How many messages there are inside a list, one inside the other. -/
def levelsOfItems : List Value → Nat
  | [] => 0
  | item :: rest => max (1 + levels item) (levelsOfItems rest)

end

theorem levelsOfEntries_le_iff
    {entries : List (String × Value)} {room : Nat} :
    levelsOfEntries entries ≤ room ↔
      ∀ entry ∈ entries, 2 + entry.2.levels ≤ room := by
  induction entries with
  | nil => simp [levelsOfEntries]
  | cons entry rest inductionHypothesis =>
      obtain ⟨key, value⟩ := entry
      rw [levelsOfEntries, Nat.max_le, inductionHypothesis,
        List.forall_mem_cons]

theorem levelsOfItems_le_iff
    {items : List Value} {room : Nat} :
    levelsOfItems items ≤ room ↔ ∀ item ∈ items, 1 + item.levels ≤ room := by
  induction items with
  | nil => simp [levelsOfItems]
  | cons item rest inductionHypothesis =>
      rw [levelsOfItems, Nat.max_le, inductionHypothesis,
        List.forall_mem_cons]

/-! ## The fields of maps and lists -/

/-- The bytes of an entry. -/
def entryBytes (entry : String × Value) : List UInt8 :=
  encodeFields
    ((if entry.1.isEmpty then [] else [⟨1, .ofText entry.1⟩]) ++
      [⟨2, .delimited entry.2.encode⟩])

theorem encodeEntries_eq (entries : List (String × Value)) :
    encodeEntries entries =
      encodeFields
        (entries.map fun entry => ⟨1, .delimited (entryBytes entry)⟩) := by
  induction entries with
  | nil => rfl
  | cons entry rest inductionHypothesis =>
      obtain ⟨key, value⟩ := entry
      have content :
          (if key.isEmpty then [] else Field.encode ⟨1, .ofText key⟩) ++
              Field.encode ⟨2, .delimited value.encode⟩ =
            entryBytes (key, value) := by
        rw [entryBytes, encodeFields_append, encodeFields_singleton]
        split
        · rfl
        · rw [encodeFields_singleton]
      rw [encodeEntries, List.map_cons, encodeFields_cons,
        ← inductionHypothesis, ← content]
      rfl

theorem encodeItems_eq (items : List Value) :
    encodeItems items =
      encodeFields (items.map fun item => ⟨1, .delimited item.encode⟩) := by
  induction items with
  | nil => rfl
  | cons item rest inductionHypothesis =>
      rw [encodeItems, List.map_cons, encodeFields_cons, ← inductionHypothesis]
      rfl

/-- An entry is read as its key and what is read of its value. -/
theorem readEntry_entryBytes
    {key : String} {value : Value} {outcome : Option Value}
    {readValue : Value → Payload → Option Value}
    (reads :
      value.encode.length < UInt64.size →
        readValue .absent (.delimited value.encode) = outcome)
    (room : Nat) (short : (entryBytes (key, value)).length < UInt64.size) :
    readEntry room .absent readValue (entryBytes (key, value)) =
      outcome.map fun content => (key, content) := by
  have readsValue :
      Reads entrySchema (Protobuf.absorbEntry readValue) (key, .absent)
        [⟨2, .delimited value.encode⟩]
        (outcome.map fun content => (key, content)) := by
    refine .single rfl fun shortValue => ?_
    have read :=
      reads (Nat.lt_of_le_of_lt (length_le_delimited _) shortValue)
    rw [absorbEntry_value, read]
  exact readEntry_encodeFields readsValue room short

/-! ## Reading -/

/-- Whether a value that was written is read again just where there is room for
the messages inside it. -/
def Reappears (value : Value) : Prop :=
  ∀ room, value.encode.length < UInt64.size →
    mergeValue room .absent value.encode =
      if value.levels ≤ room then some value else none

theorem Reappears.nested
    {value : Value} (reappears : value.Reappears) (room : Nat)
    (short : value.encode.length < UInt64.size) :
    nested (mergeValue room) .absent (.delimited value.encode) =
      if value.levels ≤ room then some value else none :=
  reappears room short

/-- Entries in ascending order are read if their values are. -/
theorem reads_entries
    (readValue : Value → Payload → Option Value) (fits : Value → Prop)
    [DecidablePred fits] (room : Nat) {entries : List (String × Value)}
    (ascending : Entries.Ascending entries)
    (reads :
      ∀ entry ∈ entries, entry.2.encode.length < UInt64.size →
        readValue .absent (.delimited entry.2.encode) =
          if fits entry.2 then some entry.2 else none) :
    Reads structSchema (absorbEntry room readValue) []
      (entries.map fun entry => ⟨1, .delimited (entryBytes entry)⟩)
      (if ∀ entry ∈ entries, fits entry.2 then some entries else none) := by
  rw [← List.append_nil (entries.map _)]
  refine .itemsWithin _ (fun before => (KeyMap.ofList before).entries) rfl
    (fun _ => rfl) (fun (key, value) member before short => ?_) ?_
  · have read :=
      readEntry_entryBytes (reads _ member) room
        (Nat.lt_of_le_of_lt (length_le_delimited _) short)
    simp only [absorbEntry, Payload.bytes?, read, KeyMap.ofList_concat]
    by_cases enough : fits value
    · simp only [if_pos enough, Option.map_some, KeyMap.insert]
    · simp only [if_neg enough, Option.map_none]
  · rw [KeyMap.entries_ofList ascending]
    exact .done

/-- Items are read if each of them is. -/
theorem reads_items
    (readValue : Value → Payload → Option Value) (fits : Value → Prop)
    [DecidablePred fits] {items : List Value}
    (reads :
      ∀ item ∈ items, item.encode.length < UInt64.size →
        readValue .absent (.delimited item.encode) =
          if fits item then some item else none) :
    Reads listSchema (absorbItem readValue) []
      (items.map fun item => ⟨1, .delimited item.encode⟩)
      (if ∀ item ∈ items, fits item then some items else none) := by
  rw [← List.append_nil (items.map _)]
  refine .itemsWithin fits id rfl (fun _ => rfl)
    (fun item member before short => ?_) .done
  have read :=
    reads item member (Nat.lt_of_le_of_lt (length_le_delimited _) short)
  simp only [absorbItem, read]
  by_cases enough : fits item
  · simp only [if_pos enough, id]
  · simp only [if_neg enough]

/-- Nothing but the empty row is read where every field is refused. -/
theorem merge_refused
    {Content Message : Type} {schema : Schema} {number : Nat}
    {values : List Content} {form : Content → List UInt8}
    (known : ∀ value, schema.knows ⟨number, .delimited (form value)⟩ = true)
    (room : Nat) (message : Message)
    (short :
      (encodeFields (values.map fun value =>
        ⟨number, .delimited (form value)⟩)).length < UInt64.size) :
    merge schema (fun _ _ => none) room message
        (encodeFields (values.map fun value =>
          ⟨number, .delimited (form value)⟩)) =
      if values.isEmpty then some message else none := by
  refine Reads.merge ?_ room short
  cases values with
  | nil => exact .done
  | cons value rest =>
      exact .fail (known value) (fun _ => rfl)
        (List.forall_mem_map.mpr fun other _ => known other)

theorem mergeStruct_encodeEntries
    {entries : List (String × Value)} (ascending : Entries.Ascending entries)
    (reappear : ∀ entry ∈ entries, entry.2.Reappears) (room : Nat)
    (short : (encodeEntries entries).length < UInt64.size) :
    mergeStruct room [] (encodeEntries entries) =
      if levelsOfEntries entries ≤ room then some entries else none := by
  rw [encodeEntries_eq] at short ⊢
  match room with
  | 0 =>
      rw [mergeStruct, merge_refused (fun _ => rfl) 0 [] short]
      cases entries with
      | nil => rfl
      | cons entry rest =>
          have tooDeep : ¬ levelsOfEntries (entry :: rest) ≤ 0 := by
            rw [levelsOfEntries]
            omega
          rw [if_neg tooDeep]
          rfl
  | 1 =>
      have reads :=
        reads_entries noRoomForValue (fun _ => False) 0 ascending
          fun _ _ _ => (if_neg not_false).symm
      have fits :
          levelsOfEntries entries ≤ 1 ↔ ∀ entry ∈ entries, False := by
        rw [levelsOfEntries_le_iff]
        exact forall₂_congr fun entry _ => iff_false_intro (by omega)
      simp only [fits]
      exact reads.merge 1 short
  | room + 2 =>
      have reads :=
        reads_entries (nested (mergeValue room))
          (fun value => value.levels ≤ room) (room + 1) ascending
          fun entry member => reappear entry member room
      have fits :
          levelsOfEntries entries ≤ room + 2 ↔
            ∀ entry ∈ entries, entry.2.levels ≤ room := by
        rw [levelsOfEntries_le_iff]
        exact forall₂_congr fun entry _ => by omega
      simp only [fits]
      exact reads.merge (room + 2) short

theorem mergeList_encodeItems
    {items : List Value} (reappear : ∀ item ∈ items, item.Reappears)
    (room : Nat) (short : (encodeItems items).length < UInt64.size) :
    mergeList room [] (encodeItems items) =
      if levelsOfItems items ≤ room then some items else none := by
  rw [encodeItems_eq] at short ⊢
  match room with
  | 0 =>
      rw [mergeList, merge_refused (fun _ => rfl) 0 [] short]
      cases items with
      | nil => rfl
      | cons item rest =>
          have tooDeep : ¬ levelsOfItems (item :: rest) ≤ 0 := by
            rw [levelsOfItems]
            omega
          rw [if_neg tooDeep]
          rfl
  | room + 1 =>
      have reads :=
        reads_items (nested (mergeValue room))
          (fun value => value.levels ≤ room)
          fun item member => reappear item member room
      have fits :
          levelsOfItems items ≤ room + 1 ↔
            ∀ item ∈ items, item.levels ≤ room := by
        rw [levelsOfItems_le_iff]
        exact forall₂_congr fun item _ => by omega
      simp only [fits]
      exact reads.merge (room + 1) short

/-- A value that is read without a look inside is read wherever it is. -/
theorem reappears_of_reads
    {value : Value} (simple : value.levels = 0)
    (reads :
      ∀ mergeStruct mergeList,
        Reads schema (absorb mergeStruct mergeList) .absent value.fields
          (some value)) :
    value.Reappears := by
  intro room short
  rw [simple, if_pos (Nat.zero_le room)]
  match room with
  | 0 => exact (reads noRoom noRoom).merge 0 short
  | room + 1 =>
      exact (reads (mergeStruct room) (mergeList room)).merge (room + 1) short

/-- A value with a message inside needs room for it and for what is inside. -/
theorem reappears_of_reads_inside
    {value : Value} (inside : Nat) (deeper : value.levels = 1 + inside)
    (withoutRoom :
      Reads schema (absorb noRoom noRoom) .absent value.fields none)
    (withRoom :
      ∀ room,
        Reads schema (absorb (mergeStruct room) (mergeList room)) .absent
          value.fields (if inside ≤ room then some value else none)) :
    value.Reappears := by
  intro room short
  rw [deeper]
  match room with
  | 0 =>
      rw [if_neg (by omega)]
      exact withoutRoom.merge 0 short
  | room + 1 =>
      have fits : 1 + inside ≤ room + 1 ↔ inside ≤ room := by omega
      simp only [fits]
      exact (withRoom room).merge (room + 1) short

theorem reappears_struct
    {entries : List (String × Value)} (ascending : Entries.Ascending entries)
    (reappear : ∀ entry ∈ entries, entry.2.Reappears) :
    (struct entries).Reappears := by
  refine reappears_of_reads_inside (levelsOfEntries entries) rfl
    (.single rfl fun _ => rfl) fun room => .single rfl fun short => ?_
  have shortBytes := Nat.lt_of_le_of_lt (length_le_delimited _) short
  calc absorb (mergeStruct room) (mergeList room) .absent
          ⟨5, .delimited (encodeEntries entries)⟩
      = (mergeStruct room [] (encodeEntries entries)).map .struct := rfl
    _ = (if levelsOfEntries entries ≤ room then some entries else none).map
          .struct := by
        rw [mergeStruct_encodeEntries ascending reappear room shortBytes]
    _ = if levelsOfEntries entries ≤ room then some (.struct entries)
          else none :=
        apply_ite (Option.map struct) _ _ _

theorem reappears_list
    {items : List Value} (reappear : ∀ item ∈ items, item.Reappears) :
    (list items).Reappears := by
  refine reappears_of_reads_inside (levelsOfItems items) rfl
    (.single rfl fun _ => rfl) fun room => .single rfl fun short => ?_
  have shortBytes := Nat.lt_of_le_of_lt (length_le_delimited _) short
  calc absorb (mergeStruct room) (mergeList room) .absent
          ⟨6, .delimited (encodeItems items)⟩
      = (mergeList room [] (encodeItems items)).map .list := rfl
    _ = (if levelsOfItems items ≤ room then some items else none).map
          .list := by
        rw [mergeList_encodeItems reappear room shortBytes]
    _ = if levelsOfItems items ≤ room then some (.list items) else none :=
        apply_ite (Option.map list) _ _ _

mutual

/-- A value whose maps have their keys in order is read again where there is
room for it, and nowhere else. -/
theorem reappears :
    ∀ (value : Value) {bound : Nat}, value.Ordered bound → value.Reappears
  | .absent, _, _ => reappears_of_reads rfl fun _ _ => .done
  | .null, _, _ => reappears_of_reads rfl fun _ _ => .single rfl fun _ => rfl
  | .number value, _, _ =>
      reappears_of_reads rfl fun _ _ => .single rfl fun _ =>
        congrArg (some ∘ number) (Double.ofBits_toBits value)
  | .string value, _, _ =>
      reappears_of_reads rfl fun _ _ => .single rfl fun _ =>
        congrArg (Option.map string) (Payload.text?_ofText value)
  | .boolean true, _, _ =>
      reappears_of_reads rfl fun _ _ => .single rfl fun _ => rfl
  | .boolean false, _, _ =>
      reappears_of_reads rfl fun _ _ => .single rfl fun _ => rfl
  | .struct entries, _, ordered =>
      reappears_struct ordered.2.1
        (reappears_of_mem_entries entries ordered.2.2)
  | .list items, _, ordered =>
      reappears_list (reappears_of_mem_items items ordered.2)

theorem reappears_of_mem_entries :
    ∀ (entries : List (String × Value)) {bound : Nat},
      OrderedEntries bound entries → ∀ entry ∈ entries, entry.2.Reappears
  | [], _, _ => List.forall_mem_nil _
  | (_, value) :: rest, _, ordered =>
      List.forall_mem_cons.mpr
        ⟨reappears value ordered.1, reappears_of_mem_entries rest ordered.2⟩

theorem reappears_of_mem_items :
    ∀ (items : List Value) {bound : Nat},
      OrderedItems bound items → ∀ item ∈ items, item.Reappears
  | [], _, _ => List.forall_mem_nil _
  | item :: rest, _, ordered =>
      List.forall_mem_cons.mpr
        ⟨reappears item ordered.1, reappears_of_mem_items rest ordered.2⟩

end

end Value

end TraceArchive.Protobuf
