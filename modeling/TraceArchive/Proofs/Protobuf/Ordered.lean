import TraceArchive.Proofs.KeyMap
import TraceArchive.Protobuf.Message

/-!
# Values that were read from bytes

Whatever the bytes, the keys of every map in a value that was read are in
ascending order, and maps and lists are inside each other at most as deeply as
there is room for. What is shown of one field is lifted to whole messages by
`Protobuf.holds_of_merge`.
-/

namespace TraceArchive.Protobuf

/-! ## Messages field by field -/

section Merge

variable {Message : Type} {Holds : Message → Prop}
  {absorb : Message → Field → Option Message} {message result : Message}

theorem holds_of_absorbAll
    (keeps :
      ∀ message field changed, absorb message field = some changed →
        Holds message → Holds changed)
    {fields : List Field} (absorbed : absorbAll absorb message fields = some result)
    (holds : Holds message) : Holds result := by
  induction fields generalizing message with
  | nil =>
      cases absorbed
      exact holds
  | cons field rest inductionHypothesis =>
      simp only [absorbAll] at absorbed
      split at absorbed
      · cases absorbed
      · rename_i changed isChanged
        have kept := keeps message field changed isChanged holds
        exact inductionHypothesis absorbed kept

/-- What every field keeps holds of every message that is read. -/
theorem holds_of_merge
    {schema : Schema} {room : Nat} {bytes : List UInt8}
    (keeps :
      ∀ message field changed, absorb message field = some changed →
        Holds message → Holds changed)
    (merged : merge schema absorb room message bytes = some result)
    (holds : Holds message) : Holds result := by
  unfold merge at merged
  split at merged
  · cases merged
  · exact holds_of_absorbAll keeps merged holds

theorem holds_of_readEntry
    {Content : Type} {Holds : Content → Prop} {room : Nat} {initial : Content}
    {readValue : Content → Payload → Option Content} {bytes : List UInt8}
    {entry : String × Content}
    (keeps :
      ∀ value payload changed, readValue value payload = some changed →
        Holds value → Holds changed)
    (read : readEntry room initial readValue bytes = some entry)
    (holds : Holds initial) : Holds entry.2 := by
  have keepsField :
      ∀ (before : String × Content) field changed,
        absorbEntry readValue before field = some changed →
          Holds before.2 → Holds changed.2 := by
    intro before field changed isChanged holdsBefore
    unfold absorbEntry at isChanged
    split at isChanged
    · obtain ⟨key, _, rfl⟩ := Option.map_eq_some_iff.mp isChanged
      exact holdsBefore
    · obtain ⟨value, isValue, rfl⟩ := Option.map_eq_some_iff.mp isChanged
      exact keeps _ _ _ isValue holdsBefore
  unfold readEntry at read
  exact
    @holds_of_merge _ (fun entry => Holds entry.2) _ _ _ _ _ _ keepsField read
      holds

end Merge

/-! ## Values -/

namespace Value

mutual

/-- Whether the keys of every map in a value are in ascending order and its maps
and lists are inside each other at most so deeply. -/
def Ordered (room : Nat) : Value → Prop
  | .struct entries =>
      0 < room ∧ Entries.Ascending entries ∧ OrderedEntries (room - 1) entries
  | .list items => 0 < room ∧ OrderedItems (room - 1) items
  | _ => True

/-- Whether this holds of all items of a list. -/
def OrderedItems (room : Nat) : List Value → Prop
  | [] => True
  | item :: rest => Ordered room item ∧ OrderedItems room rest

/-- Whether this holds of the values of all entries. -/
def OrderedEntries (room : Nat) : List (String × Value) → Prop
  | [] => True
  | (_, value) :: rest => Ordered room value ∧ OrderedEntries room rest

end

theorem orderedItems_iff {room : Nat} {items : List Value} :
    OrderedItems room items ↔ ∀ item ∈ items, Ordered room item := by
  induction items with
  | nil => simp [OrderedItems]
  | cons item rest inductionHypothesis =>
      rw [OrderedItems, inductionHypothesis, List.forall_mem_cons]

theorem orderedEntries_iff {room : Nat} {entries : List (String × Value)} :
    OrderedEntries room entries ↔ ∀ entry ∈ entries, Ordered room entry.2 := by
  induction entries with
  | nil => simp [OrderedEntries]
  | cons entry rest inductionHypothesis =>
      obtain ⟨key, value⟩ := entry
      rw [OrderedEntries, inductionHypothesis, List.forall_mem_cons]

mutual

theorem Ordered.mono :
    ∀ (value : Value) {room more : Nat}, room ≤ more →
      Ordered room value → Ordered more value
  | .absent, _, _, _, _ => trivial
  | .null, _, _, _, _ => trivial
  | .number _, _, _, _, _ => trivial
  | .string _, _, _, _, _ => trivial
  | .boolean _, _, _, _, _ => trivial
  | .struct entries, room, more, atMost, ordered => by
      obtain ⟨positive, ascending, orderedEntries⟩ := ordered
      refine ⟨by omega, ascending, ?_⟩
      exact OrderedEntries.mono entries (by omega) orderedEntries
  | .list items, room, more, atMost, ordered => by
      obtain ⟨positive, orderedItems⟩ := ordered
      refine ⟨by omega, ?_⟩
      exact OrderedItems.mono items (by omega) orderedItems

theorem OrderedItems.mono :
    ∀ (items : List Value) {room more : Nat}, room ≤ more →
      OrderedItems room items → OrderedItems more items
  | [], _, _, _, _ => trivial
  | item :: rest, _, _, atMost, ordered =>
      ⟨Ordered.mono item atMost ordered.1,
        OrderedItems.mono rest atMost ordered.2⟩

theorem OrderedEntries.mono :
    ∀ (entries : List (String × Value)) {room more : Nat}, room ≤ more →
      OrderedEntries room entries → OrderedEntries more entries
  | [], _, _, _, _ => trivial
  | (_, value) :: rest, _, _, atMost, ordered =>
      ⟨Ordered.mono value atMost ordered.1,
        OrderedEntries.mono rest atMost ordered.2⟩

end

/-- Whether the entries of a map are in ascending order of the keys, and so are
those of the maps in their values, to some depth. -/
def OrderedStruct (room : Nat) (entries : List (String × Value)) : Prop :=
  Entries.Ascending entries ∧ OrderedEntries room entries

theorem orderedStruct_nil (room : Nat) : OrderedStruct room [] :=
  ⟨.nil, trivial⟩

theorem OrderedStruct.insert
    {room : Nat} {entries : List (String × Value)}
    (ordered : OrderedStruct room entries) (key : String) {value : Value}
    (orderedValue : value.Ordered room) :
    OrderedStruct room (Entries.insert key value entries) := by
  refine ⟨Entries.ascending_insert key value ordered.1, ?_⟩
  rw [orderedEntries_iff]
  intro entry member
  rcases Entries.mem_insert member with rfl | before
  · exact orderedValue
  · exact orderedEntries_iff.mp ordered.2 entry before

/-! ### Reading values -/

theorem orderedStruct_entriesSoFar
    {room : Nat} {value : Value} (ordered : value.Ordered (room + 1)) :
    OrderedStruct room value.entriesSoFar := by
  cases value with
  | struct entries => exact ⟨ordered.2.1, ordered.2.2⟩
  | _ => exact orderedStruct_nil room

theorem orderedItems_itemsSoFar
    {room : Nat} {value : Value} (ordered : value.Ordered (room + 1)) :
    OrderedItems room value.itemsSoFar := by
  cases value with
  | list items => exact ordered.2
  | _ => trivial

/-- Putting a field into a value keeps its keys in order if that holds of the
ways to read maps and lists. -/
theorem ordered_of_absorb
    {mergeStruct :
      List (String × Value) → List UInt8 → Option (List (String × Value))}
    {mergeList : List Value → List UInt8 → Option (List Value)} {room : Nat}
    (ofStruct :
      ∀ entries bytes changed, mergeStruct entries bytes = some changed →
        OrderedStruct room entries → OrderedStruct room changed)
    (ofList :
      ∀ items bytes changed, mergeList items bytes = some changed →
        OrderedItems room items → OrderedItems room changed)
    {value changed : Value} {field : Field}
    (absorbed : absorb mergeStruct mergeList value field = some changed)
    (ordered : value.Ordered (room + 1)) : changed.Ordered (room + 1) := by
  unfold absorb at absorbed
  split at absorbed
  · obtain ⟨_, _, rfl⟩ := Option.map_eq_some_iff.mp absorbed
    trivial
  · obtain ⟨_, _, rfl⟩ := Option.map_eq_some_iff.mp absorbed
    trivial
  · obtain ⟨_, _, rfl⟩ := Option.map_eq_some_iff.mp absorbed
    trivial
  · obtain ⟨_, _, rfl⟩ := Option.map_eq_some_iff.mp absorbed
    trivial
  · split at absorbed
    · cases absorbed
    · obtain ⟨entries, merged, rfl⟩ := Option.map_eq_some_iff.mp absorbed
      have orderedEntries :=
        ofStruct _ _ _ merged (orderedStruct_entriesSoFar ordered)
      exact ⟨Nat.succ_pos room, orderedEntries⟩
  · split at absorbed
    · cases absorbed
    · obtain ⟨items, merged, rfl⟩ := Option.map_eq_some_iff.mp absorbed
      have orderedItems := ofList _ _ _ merged (orderedItems_itemsSoFar ordered)
      exact ⟨Nat.succ_pos room, orderedItems⟩

theorem orderedStruct_of_absorbEntry
    {entryRoom inner room : Nat} (atMost : inner ≤ room)
    {readValue : Value → Payload → Option Value}
    (ofValue :
      ∀ value payload changed, readValue value payload = some changed →
        value.Ordered inner → changed.Ordered inner)
    {entries changed : List (String × Value)} {field : Field}
    (absorbed : absorbEntry entryRoom readValue entries field = some changed)
    (ordered : OrderedStruct room entries) : OrderedStruct room changed := by
  unfold absorbEntry at absorbed
  split at absorbed
  · cases absorbed
  · split at absorbed
    · cases absorbed
    · rename_i key value read
      cases absorbed
      have orderedValue : value.Ordered inner :=
        holds_of_readEntry ofValue read trivial
      exact ordered.insert key (Ordered.mono value atMost orderedValue)

theorem orderedItems_of_absorbItem
    {inner room : Nat} (atMost : inner ≤ room)
    {readValue : Value → Payload → Option Value}
    (ofValue :
      ∀ value payload changed, readValue value payload = some changed →
        value.Ordered inner → changed.Ordered inner)
    {items changed : List Value} {field : Field}
    (absorbed : absorbItem readValue items field = some changed)
    (ordered : OrderedItems room items) : OrderedItems room changed := by
  unfold absorbItem at absorbed
  split at absorbed
  · cases absorbed
  · rename_i item read
    cases absorbed
    have orderedItem : item.Ordered inner := ofValue _ _ _ read trivial
    rw [orderedItems_iff] at ordered ⊢
    rw [List.forall_mem_append, List.forall_mem_singleton]
    exact ⟨ordered, Ordered.mono item atMost orderedItem⟩

theorem of_nested
    {Holds : Value → Prop} {mergeValue : Value → List UInt8 → Option Value}
    (ofMerge :
      ∀ value bytes changed, mergeValue value bytes = some changed →
        Holds value → Holds changed)
    (value : Value) (payload : Payload) (changed : Value)
    (read : nested mergeValue value payload = some changed)
    (holds : Holds value) : Holds changed := by
  unfold nested at read
  split at read
  · cases read
  · exact ofMerge _ _ _ read holds

mutual

theorem ordered_of_mergeValue :
    ∀ (room : Nat) (value : Value) (bytes : List UInt8) (changed : Value),
      mergeValue room value bytes = some changed →
        value.Ordered (room + 1) → changed.Ordered (room + 1)
  | 0, value, bytes, changed, merged, ordered => by
      unfold mergeValue at merged
      refine holds_of_merge (fun _ _ _ absorbed before => ?_) merged ordered
      refine ordered_of_absorb (fun _ _ _ read _ => ?_)
        (fun _ _ _ read _ => ?_) absorbed before
      · cases read
      · cases read
  | room + 1, value, bytes, changed, merged, ordered => by
      unfold mergeValue at merged
      refine holds_of_merge (fun _ _ _ absorbed before => ?_) merged ordered
      exact ordered_of_absorb (orderedStruct_of_mergeStruct room)
        (orderedItems_of_mergeList room) absorbed before

theorem orderedStruct_of_mergeStruct :
    ∀ (room : Nat) (entries : List (String × Value)) (bytes : List UInt8)
      (changed : List (String × Value)),
      mergeStruct room entries bytes = some changed →
        OrderedStruct (room + 1) entries → OrderedStruct (room + 1) changed
  | 0, entries, bytes, changed, merged, ordered => by
      unfold mergeStruct at merged
      refine holds_of_merge (fun _ _ _ absorbed before => ?_) merged ordered
      cases absorbed
  | 1, entries, bytes, changed, merged, ordered => by
      unfold mergeStruct at merged
      refine holds_of_merge (fun _ _ _ absorbed before => ?_) merged ordered
      refine orderedStruct_of_absorbEntry (Nat.le_refl _)
        (fun _ _ _ read _ => ?_) absorbed before
      cases read
  | room + 2, entries, bytes, changed, merged, ordered => by
      unfold mergeStruct at merged
      refine holds_of_merge (fun _ _ _ absorbed before => ?_) merged ordered
      exact orderedStruct_of_absorbEntry (by omega)
        (of_nested (ordered_of_mergeValue room)) absorbed before

theorem orderedItems_of_mergeList :
    ∀ (room : Nat) (items : List Value) (bytes : List UInt8)
      (changed : List Value), mergeList room items bytes = some changed →
        OrderedItems (room + 1) items → OrderedItems (room + 1) changed
  | 0, items, bytes, changed, merged, ordered => by
      unfold mergeList at merged
      refine holds_of_merge (fun _ _ _ absorbed before => ?_) merged ordered
      cases absorbed
  | room + 1, items, bytes, changed, merged, ordered => by
      unfold mergeList at merged
      refine holds_of_merge (fun _ _ _ absorbed before => ?_) merged ordered
      exact orderedItems_of_absorbItem (by omega)
        (of_nested (ordered_of_mergeValue room)) absorbed before

end

end Value

/-! ## Traces -/

/-- Whether the keys in the values of a map are in ascending order, to some
depth. -/
def OrderedMap (room : Nat) (map : KeyMap Value) : Prop :=
  ∀ entry ∈ map.entries, entry.2.Ordered room

theorem OrderedMap.mono
    {room more : Nat} (atMost : room ≤ more) {map : KeyMap Value}
    (ordered : OrderedMap room map) : OrderedMap more map :=
  fun entry member => Value.Ordered.mono entry.2 atMost (ordered entry member)

theorem orderedMap_empty (room : Nat) : OrderedMap room .empty :=
  fun _ member => absurd member List.not_mem_nil

theorem exists_of_readNested
    {Message : Type}
    {mergeMessage : Nat → Message → List UInt8 → Option Message} {room : Nat}
    {message changed : Message} {payload : Payload}
    (read : readNested mergeMessage room message payload = some changed) :
    ∃ less bytes, room = less + 1 ∧
      mergeMessage less message bytes = some changed := by
  cases room with
  | zero => cases read
  | succ less =>
      simp only [readNested] at read
      split at read
      · cases read
      · rename_i bytes _
        exact ⟨less, bytes, rfl, read⟩

theorem ordered_of_readNested
    (room : Nat) (value : Value) (payload : Payload) (changed : Value)
    (read : readNested Value.mergeValue room value payload = some changed)
    (ordered : value.Ordered room) : changed.Ordered room := by
  obtain ⟨less, bytes, rfl, merged⟩ := exists_of_readNested read
  exact Value.ordered_of_mergeValue less value bytes changed merged ordered

theorem orderedMap_of_absorbAttribute
    {room : Nat} {map changed : KeyMap Value} {payload : Payload}
    (absorbed : absorbAttribute room map payload = some changed)
    (ordered : OrderedMap room map) : OrderedMap room changed := by
  unfold absorbAttribute at absorbed
  split at absorbed
  · rename_i less bytes _
    split at absorbed
    · cases absorbed
    · rename_i key value read
      cases absorbed
      have orderedValue : value.Ordered less :=
        holds_of_readEntry (ordered_of_readNested less) read trivial
      intro entry member
      rcases Entries.mem_insert member with rfl | before
      · exact Value.Ordered.mono value (Nat.le_succ less) orderedValue
      · exact ordered entry before
  · cases absorbed

theorem Event.ordered_of_merge
    {room : Nat} {event changed : Event} {bytes : List UInt8}
    (merged : event.merge room bytes = some changed)
    (ordered : OrderedMap room event.attributes) :
    OrderedMap room changed.attributes := by
  refine @holds_of_merge _ (fun event => OrderedMap room event.attributes) _ _
    _ _ _ _ ?_ merged ordered
  intro before field after absorbed holds
  unfold Event.absorb at absorbed
  split at absorbed
  all_goals obtain ⟨_, read, rfl⟩ := Option.map_eq_some_iff.mp absorbed
  -- the other fields do not matter
  all_goals try exact holds
  exact orderedMap_of_absorbAttribute read holds

theorem Link.ordered_of_merge
    {room : Nat} {link changed : Link} {bytes : List UInt8}
    (merged : link.merge room bytes = some changed)
    (ordered : OrderedMap room link.attributes) :
    OrderedMap room changed.attributes := by
  refine @holds_of_merge _ (fun link => OrderedMap room link.attributes) _ _
    _ _ _ _ ?_ merged ordered
  intro before field after absorbed holds
  unfold Link.absorb at absorbed
  split at absorbed
  all_goals obtain ⟨_, read, rfl⟩ := Option.map_eq_some_iff.mp absorbed
  -- the other fields do not matter
  all_goals try exact holds
  exact orderedMap_of_absorbAttribute read holds

namespace Span

/-- Whether the keys in the attributes of a span, of its events and of its links
are in ascending order, to some depth. -/
def Ordered (room : Nat) (span : Span) : Prop :=
  OrderedMap room span.attributes ∧
    (∀ event ∈ span.events, OrderedMap room event.attributes) ∧
      ∀ link ∈ span.links, OrderedMap room link.attributes

theorem Ordered.mono
    {room more : Nat} (atMost : room ≤ more) {span : Span}
    (ordered : span.Ordered room) : span.Ordered more :=
  ⟨ordered.1.mono atMost,
    fun event member => (ordered.2.1 event member).mono atMost,
    fun link member => (ordered.2.2 link member).mono atMost⟩

theorem ordered_initial (room : Nat) : Ordered room {} :=
  ⟨orderedMap_empty room, List.forall_mem_nil _, List.forall_mem_nil _⟩

theorem ordered_of_merge
    {room : Nat} {span changed : Span} {bytes : List UInt8}
    (merged : span.merge room bytes = some changed)
    (ordered : span.Ordered room) : changed.Ordered room := by
  refine holds_of_merge ?_ merged ordered
  intro before field after absorbed holds
  unfold absorb at absorbed
  split at absorbed
  all_goals obtain ⟨_, read, rfl⟩ := Option.map_eq_some_iff.mp absorbed
  -- the other fields do not matter
  all_goals try exact holds
  · exact ⟨orderedMap_of_absorbAttribute read holds.1, holds.2⟩
  · obtain ⟨less, bytes, rfl, mergedEvent⟩ := exists_of_readNested read
    have orderedEvent :=
      Event.ordered_of_merge mergedEvent (orderedMap_empty less)
    refine ⟨holds.1, ?_, holds.2.2⟩
    rw [List.forall_mem_append, List.forall_mem_singleton]
    exact ⟨holds.2.1, orderedEvent.mono (Nat.le_succ less)⟩
  · obtain ⟨less, bytes, rfl, mergedLink⟩ := exists_of_readNested read
    have orderedLink :=
      Link.ordered_of_merge mergedLink (orderedMap_empty less)
    refine ⟨holds.1, holds.2.1, ?_⟩
    rw [List.forall_mem_append, List.forall_mem_singleton]
    exact ⟨holds.2.2, orderedLink.mono (Nat.le_succ less)⟩

theorem ordered_of_mergeList
    {room : Nat} {spans changed : List Span} {bytes : List UInt8}
    (merged : mergeList room spans bytes = some changed)
    (ordered : ∀ span ∈ spans, span.Ordered room) :
    ∀ span ∈ changed, span.Ordered room := by
  refine @holds_of_merge _ (fun spans => ∀ span ∈ spans, Ordered room span)
    _ _ _ _ _ _ ?_ merged ordered
  intro before field after absorbed holds
  obtain ⟨span, read, rfl⟩ := Option.map_eq_some_iff.mp absorbed
  obtain ⟨less, bytes, rfl, mergedSpan⟩ := exists_of_readNested read
  have orderedSpan := ordered_of_merge mergedSpan (ordered_initial less)
  rw [List.forall_mem_append, List.forall_mem_singleton]
  exact ⟨holds, orderedSpan.mono (Nat.le_succ less)⟩

end Span

theorem TraceInfo.ordered_of_merge
    {room : Nat} {info changed : TraceInfo} {bytes : List UInt8}
    (merged : info.merge room bytes = some changed)
    (ordered :
      ∀ assessment ∈ info.assessments, Value.OrderedStruct room assessment) :
    ∀ assessment ∈ changed.assessments,
      Value.OrderedStruct room assessment := by
  refine @holds_of_merge _ (fun info : TraceInfo =>
    ∀ assessment ∈ info.assessments, Value.OrderedStruct room assessment)
    _ _ _ _ _ _ ?_ merged ordered
  intro before field after absorbed holds
  unfold absorb at absorbed
  split at absorbed
  all_goals obtain ⟨entries, read, rfl⟩ := Option.map_eq_some_iff.mp absorbed
  -- the other fields do not matter
  all_goals try exact holds
  obtain ⟨less, bytes, rfl, mergedEntries⟩ := exists_of_readNested read
  have orderedEntries :=
    Value.orderedStruct_of_mergeStruct less [] bytes entries mergedEntries
      (Value.orderedStruct_nil _)
  rw [List.forall_mem_append, List.forall_mem_singleton]
  exact ⟨holds, orderedEntries⟩

/-- Whether the keys in the assessments and in the attributes of a trace are in
ascending order, to some depth. -/
structure Trace.Ordered (room : Nat) (trace : Trace) : Prop where
  assessments :
    ∀ info, trace.info = some info →
      ∀ assessment ∈ info.assessments, Value.OrderedStruct room assessment
  spans :
    ∀ spans, trace.spans = some spans → ∀ span ∈ spans, span.Ordered room

theorem Trace.ordered_of_absorb
    {room : Nat} {trace changed : Trace} {field : Field}
    (absorbed : trace.absorb (room + 1) field = some changed)
    (ordered : trace.Ordered room) : changed.Ordered room := by
  unfold absorb at absorbed
  split at absorbed
  · obtain ⟨info, read, rfl⟩ := Option.map_eq_some_iff.mp absorbed
    obtain ⟨less, bytes, isLess, merged⟩ := exists_of_readNested read
    cases isLess
    have before :
        ∀ assessment ∈ (trace.info.getD {}).assessments,
          Value.OrderedStruct room assessment := by
      cases isInfo : trace.info with
      | none => exact List.forall_mem_nil _
      | some held => exact ordered.assessments held isInfo
    refine ⟨?_, ordered.spans⟩
    rintro _ ⟨⟩
    exact TraceInfo.ordered_of_merge merged before
  · obtain ⟨spans, read, rfl⟩ := Option.map_eq_some_iff.mp absorbed
    obtain ⟨less, bytes, isLess, merged⟩ := exists_of_readNested read
    cases isLess
    have before : ∀ span ∈ trace.spans.getD [], span.Ordered room := by
      cases isSpans : trace.spans with
      | none => exact List.forall_mem_nil _
      | some held => exact ordered.spans held isSpans
    refine ⟨ordered.assessments, ?_⟩
    rintro _ ⟨⟩
    exact Span.ordered_of_mergeList merged before

/-- The keys in a trace that was read from bytes are in ascending order. -/
theorem Trace.ordered_of_decode?
    {bytes : List UInt8} {trace : Trace}
    (decoded : decode? bytes = some trace) : trace.Ordered 99 := by
  refine holds_of_merge (fun _ _ _ absorbed ordered => ?_) decoded
    ⟨fun _ => nofun, fun _ => nofun⟩
  exact ordered_of_absorb absorbed ordered

end TraceArchive.Protobuf
