import TraceArchive.Proofs.Service.Submission
import TraceArchive.Proofs.Text.Utf8

/-!
# A limit on attributes

The service keeps the first attributes of each map in the order of the bytes of
their keys and counts the others as dropped. One limit after another is the lesser
of both, so that nothing is counted twice: `AttributePolicy.enforce_enforce`.
-/

namespace TraceArchive

/-! ## What a limit leaves -/

/-- How many keys of a map come before a key in the order of their bytes. -/
def Attributes.rankOf (attributes : Attributes) (key : String) : Nat :=
  (attributes.keys.filter fun other =>
    Text.Utf8.encode other.toList < Text.Utf8.encode key.toList).length

/-- Whether a limit leaves the second map and count of the first: the first keys
in the order of their bytes with their values, and the count raised by the number
of all others, as far as it can be. -/
structure Attributes.CutTo (maximum : Nat) (before after : Attributes)
    (dropped droppedAfter : UInt32) : Prop where
  kept :
    ∀ key value, (key, value) ∈ after.entries ↔
      (key, value) ∈ before.entries ∧ before.rankOf key < maximum
  size : after.size = min maximum before.size
  counted :
    droppedAfter.toNat =
      min (dropped.toNat + (before.size - after.size)) (UInt32.size - 1)

/-- Whether a limit leaves the second event of the first. -/
structure SpanEvent.CutTo (maximum : Nat) (before after : SpanEvent) :
    Prop where
  attributes :
    Attributes.CutTo maximum before.attributes after.attributes
      before.droppedAttributes after.droppedAttributes
  others :
    after =
      { before with
        attributes := after.attributes
        droppedAttributes := after.droppedAttributes }

/-- Whether a limit leaves the second link of the first. -/
structure SpanLink.CutTo (maximum : Nat) (before after : SpanLink) :
    Prop where
  attributes :
    Attributes.CutTo maximum before.attributes after.attributes
      before.droppedAttributes after.droppedAttributes
  others :
    after =
      { before with
        attributes := after.attributes
        droppedAttributes := after.droppedAttributes }

/-- Whether a limit leaves the second span of the first. -/
structure Span.CutTo (maximum : Nat) (before after : Span) : Prop where
  attributes :
    Attributes.CutTo maximum before.attributes after.attributes
      before.droppedAttributes after.droppedAttributes
  events :
    List.Forall₂ (SpanEvent.CutTo maximum) before.events after.events
  links : List.Forall₂ (SpanLink.CutTo maximum) before.links after.links
  others :
    after =
      { before with
        attributes := after.attributes
        droppedAttributes := after.droppedAttributes
        events := after.events
        links := after.links }

namespace AttributePolicy

/-! ## Counts -/

theorem toNat_addSaturated (count : UInt32) (more : Nat) :
    (addSaturated count more).toNat =
      min (count.toNat + more) (UInt32.size - 1) := by
  have isSmall : min (count.toNat + more) (UInt32.size - 1) < UInt32.size :=
    Nat.lt_of_le_of_lt (Nat.min_le_right _ _) (by decide)
  exact UInt32.toNat_ofNat'.trans (Nat.mod_eq_of_lt isSmall)

/-- A count that is raised twice is raised by both numbers. -/
theorem addSaturated_addSaturated (count : UInt32) (more further : Nat) :
    addSaturated (addSaturated count more) further =
      addSaturated count (more + further) := by
  apply UInt32.toNat_inj.mp
  rw [toNat_addSaturated, toNat_addSaturated, toNat_addSaturated]
  omega

/-! ## Maps -/

theorem rankOf_eq (attributes : Attributes) (key : String) :
    attributes.rankOf key =
      (attributes.keys.filter fun other => other < key).length := by
  unfold Attributes.rankOf
  simp only [Text.Utf8.encode_lt_encode_iff]

theorem cutTo_truncate
    (maximum : Nat) (attributes : Attributes) (dropped : UInt32) :
    attributes.CutTo maximum (truncate maximum attributes dropped).1 dropped
      (truncate maximum attributes dropped).2 := by
  have size := KeyMap.size_take attributes maximum
  rw [truncate_eq]
  refine ⟨?_, size, ?_⟩
  · intro key value
    rw [rankOf_eq]
    exact KeyMap.mem_take_iff
  · have sameCount :
        attributes.size - min maximum attributes.size =
          attributes.size - maximum := by
      omega
    rw [toNat_addSaturated, size, sameCount]

/-- One limit after another takes off what the lesser of both does. -/
theorem truncate_truncate
    (maximum other : Nat) (attributes : Attributes) (dropped : UInt32) :
    truncate other (truncate maximum attributes dropped).1
        (truncate maximum attributes dropped).2 =
      truncate (min maximum other) attributes dropped := by
  simp only [truncate_eq]
  have sameCount :
      attributes.size - maximum +
          ((attributes.take maximum).size - other) =
        attributes.size - min maximum other := by
    rw [KeyMap.size_take]
    omega
  rw [KeyMap.take_take, addSaturated_addSaturated, sameCount]

/-! ## Spans -/

theorem cutTo_cutSpan (maximum : Nat) (span : Span) :
    span.CutTo maximum (cutSpan maximum span) where
  attributes := cutTo_truncate _ _ _
  events := by
    refine List.forall₂_map_right_iff.mpr (List.forall₂_same.mpr ?_)
    exact fun event _ => ⟨cutTo_truncate _ _ _, rfl⟩
  links := by
    refine List.forall₂_map_right_iff.mpr (List.forall₂_same.mpr ?_)
    exact fun link _ => ⟨cutTo_truncate _ _ _, rfl⟩
  others := rfl

theorem cutEvent_cutEvent (maximum other : Nat) :
    cutEvent other ∘ cutEvent maximum = cutEvent (min maximum other) := by
  funext event
  simp only [Function.comp_apply, cutEvent, truncate_truncate]

theorem cutLink_cutLink (maximum other : Nat) :
    cutLink other ∘ cutLink maximum = cutLink (min maximum other) := by
  funext link
  simp only [Function.comp_apply, cutLink, truncate_truncate]

theorem cutSpan_cutSpan (maximum other : Nat) :
    cutSpan other ∘ cutSpan maximum = cutSpan (min maximum other) := by
  funext span
  simp only [Function.comp_apply, cutSpan, truncate_truncate, List.map_map,
    cutEvent_cutEvent, cutLink_cutLink]

theorem apply_apply (maximum other : Nat) (spans : List Span) :
    (enforce other).apply ((enforce maximum).apply spans) =
      (enforce (min maximum other)).apply spans := by
  change (spans.map (cutSpan maximum)).map (cutSpan other) =
    spans.map (cutSpan (min maximum other))
  rw [List.map_map, cutSpan_cutSpan]

/-- A limit leaves of each map of each span, event and link the first attributes
in the order of the bytes of their keys, counts all others as dropped and changes
nothing else. One limit after another leaves what the lesser of both does, counts
included. So spans that a limit was put to before keep what they have and count
nothing again, also when others are added to them. -/
theorem enforce_enforce (maximum other : Nat) (spans added : List Span) :
    List.Forall₂ (Span.CutTo maximum) spans ((enforce maximum).apply spans) ∧
      (enforce other).apply ((enforce maximum).apply spans) =
        (enforce (min maximum other)).apply spans ∧
      (enforce maximum).apply ((enforce maximum).apply spans ++ added) =
        (enforce maximum).apply spans ++ (enforce maximum).apply added := by
  refine ⟨?_, apply_apply maximum other spans, ?_⟩
  · refine List.forall₂_map_right_iff.mpr (List.forall₂_same.mpr ?_)
    exact fun span _ => cutTo_cutSpan maximum span
  · have again := apply_apply maximum maximum spans
    rw [Nat.min_self] at again
    calc
      (enforce maximum).apply ((enforce maximum).apply spans ++ added) =
          (enforce maximum).apply ((enforce maximum).apply spans) ++
            (enforce maximum).apply added := List.map_append
      _ = (enforce maximum).apply spans ++ (enforce maximum).apply added := by
          rw [again]

end AttributePolicy

end TraceArchive
