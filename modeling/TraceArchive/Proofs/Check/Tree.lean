import Mathlib.Data.List.Perm.Subperm
import TraceArchive.Check.Tree

/-!
# Trees of spans

Spans that pass the check form a tree under their only root, but for parents
outside the trace in the lenient mode. A walk that meets no span again ends at a
root, at a parent outside the trace or at an earlier walk, so that nothing lies
on a cycle.
-/

namespace TraceArchive.Check

/-! ## What a tree is -/

/-- Whether a span with the second identifier has the first as its parent. -/
def IsParent (spans : List Span) (parent child : Identifier) : Prop :=
  ∃ span ∈ spans, span.spanId = child ∧ span.parentId = some parent

/-- Whether every parent is a span. -/
def NoOrphans (spans : List Span) : Prop :=
  ∀ span ∈ spans, ∀ parent, span.parentId = some parent →
    ∃ other ∈ spans, other.spanId = parent

/-- Whether spans form a tree, but for parents outside of it. -/
structure IsTree (spans : List Span) : Prop where
  distinct : (spans.map Span.spanId).Nodup
  rooted : spans = [] ∨ ∃ root, spans.filter Span.isRoot = [root]
  acyclic : ∀ identifier,
    ¬Relation.TransGen (IsParent spans) identifier identifier

/-! ## Repeated identifiers -/

theorem distinct_of_repeatedIds_nil
    {seen identifiers : List Identifier}
    (none : repeatedIds seen [] identifiers = []) :
    identifiers.Nodup ∧ ∀ identifier ∈ identifiers, identifier ∉ seen := by
  induction identifiers generalizing seen with
  | nil => simp
  | cons identifier rest inductionHypothesis =>
      unfold repeatedIds at none
      split at none
      · simp at none
      · rename_i isNew
        obtain ⟨distinct, unseen⟩ := inductionHypothesis none
        have fresh : identifier ∉ rest :=
          fun member => unseen identifier member List.mem_cons_self
        refine ⟨List.nodup_cons.mpr ⟨fresh, distinct⟩, ?_⟩
        intro other member
        rcases List.mem_cons.mp member with rfl | inRest
        · simpa using isNew
        · exact fun isSeen =>
            unseen other inRest (List.mem_cons_of_mem _ isSeen)

theorem distinct_of_duplicateSpans_nil
    {spans : List Span} (nothing : duplicateSpans spans = []) :
    (spans.map Span.spanId).Nodup :=
  (distinct_of_repeatedIds_nil (List.map_eq_nil_iff.mp nothing)).1

/-! ## Roots and orphans -/

theorem rooted_of_rootViolations_nil
    {spans : List Span} (nothing : rootViolations spans = []) :
    ∃ root, spans.filter Span.isRoot = [root] := by
  unfold rootViolations at nothing
  split at nothing
  · cases nothing
  · rename_i root isRoot
    exact ⟨root, isRoot⟩
  · cases nothing

theorem orphanViolation?_eq_none_iff
    {spans : List Span} {span : Span} :
    orphanViolation? spans span = none ↔
      ∀ parent, span.parentId = some parent →
        ∃ other ∈ spans, other.spanId = parent := by
  unfold orphanViolation?
  cases hasParent : span.parentId with
  | none => simp
  | some parent => simp [isSpan]

theorem orphanSpans_eq_nil_iff {spans : List Span} :
    orphanSpans spans = [] ↔ NoOrphans spans := by
  unfold orphanSpans NoOrphans
  simp only [List.filterMap_eq_nil_iff, orphanViolation?_eq_none_iff]

instance (spans : List Span) : Decidable (NoOrphans spans) :=
  match violations : orphanSpans spans with
  | [] => .isTrue (orphanSpans_eq_nil_iff.mp violations)
  | _ :: _ => .isFalse (by simp [← orphanSpans_eq_nil_iff, violations])

/-! ## Walks along the parents -/

section Walks

variable {spans : List Span}

/-- With distinct identifiers a parent is found by its child. -/
theorem parentOf_of_isParent
    (distinct : (spans.map Span.spanId).Nodup) {parent child : Identifier}
    (isParent : IsParent spans parent child) :
    parentOf spans child = some parent := by
  obtain ⟨span, member, rfl, hasParent⟩ := isParent
  have found :
      spans.find? (fun other => other.spanId == span.spanId) = some span := by
    induction spans with
    | nil => simp at member
    | cons head rest inductionHypothesis =>
        rw [List.map_cons, List.nodup_cons] at distinct
        rcases List.mem_cons.mp member with rfl | inRest
        · simp
        · have different : head.spanId ≠ span.spanId := by
            intro same
            exact distinct.1 (same ▸ List.mem_map_of_mem inRest)
          simp [different, inductionHypothesis distinct.2 inRest]
  unfold parentOf
  rw [found]
  exact hasParent

theorem isSpan_of_parentOf
    {parent child : Identifier}
    (isParent : parentOf spans child = some parent) :
    child ∈ spans.map Span.spanId := by
  unfold parentOf at isParent
  split at isParent
  · cases isParent
  · rename_i span found
    have same := List.find?_some found
    exact List.mem_map.mpr
      ⟨span, List.mem_of_find?_eq_some found, by simpa using same⟩

/-- Whether the parents from an identifier on come to an end. -/
abbrev Grounded (spans : List Span) (identifier : Identifier) : Prop :=
  Acc (IsParent spans) identifier

theorem grounded_of_parentOf
    (distinct : (spans.map Span.spanId).Nodup) {identifier : Identifier}
    (above :
      ∀ parent, parentOf spans identifier = some parent →
        Grounded spans parent) :
    Grounded spans identifier :=
  Acc.intro identifier fun parent isParent =>
    above parent (parentOf_of_isParent distinct isParent)

/-- A walk with enough steps that meets nothing again ends, so that all it has
met is grounded. Enough are more than there are spans that it has not yet
met. -/
theorem grounded_of_walkFrom
    (distinct : (spans.map Span.spanId).Nodup) {done : List Identifier}
    (doneGrounded : ∀ identifier ∈ done, Grounded spans identifier)
    {steps : Nat} {visited : List Identifier} {current : Option Identifier}
    (unrepeated : visited.Nodup)
    (onSpans :
      ∀ next, current = some next → visited ⊆ spans.map Span.spanId)
    (enough : spans.length < steps + visited.length)
    (ends : (walkFrom spans done steps visited current).repeated = none) :
    (∀ next, current = some next → Grounded spans next) ∧
      ∀ identifier ∈ (walkFrom spans done steps visited current).visited,
        identifier ∈ visited ∨ Grounded spans identifier := by
  induction steps generalizing visited current with
  | zero =>
      refine ⟨?_, fun identifier member => Or.inl member⟩
      intro next isNext
      have bounded :=
        unrepeated.length_le_of_subset (onSpans next isNext)
      rw [List.length_map] at bounded
      omega
  | succ steps inductionHypothesis =>
      cases current with
      | none =>
          exact ⟨by simp, fun identifier member => Or.inl member⟩
      | some identifier =>
          unfold walkFrom at ends ⊢
          by_cases isDone : done.contains identifier = true
          · rw [if_pos isDone]
            refine ⟨?_, fun other member => Or.inl member⟩
            intro next isNext
            cases isNext
            exact doneGrounded identifier (List.contains_iff_mem.mp isDone)
          · rw [if_neg isDone] at ends ⊢
            by_cases again : visited.contains identifier = true
            · rw [if_pos again] at ends
              cases ends
            · rw [if_neg again] at ends ⊢
              have isNew : identifier ∉ visited :=
                fun member => again (List.contains_iff_mem.mpr member)
              obtain ⟨above, met⟩ :=
                inductionHypothesis
                  (List.nodup_cons.mpr ⟨isNew, unrepeated⟩)
                  (by
                    intro parent isParent
                    exact List.cons_subset.mpr
                      ⟨isSpan_of_parentOf isParent,
                        onSpans identifier rfl⟩)
                  (by
                    rw [List.length_cons]
                    omega)
                  ends
              have grounded : Grounded spans identifier :=
                grounded_of_parentOf distinct above
              refine ⟨?_, ?_⟩
              · intro next isNext
                cases isNext
                exact grounded
              · intro other member
                rcases met other member with inVisited | isGrounded
                · rcases List.mem_cons.mp inVisited with rfl | before
                  · exact Or.inr grounded
                  · exact Or.inl before
                · exact Or.inr isGrounded

theorem grounded_of_cyclesFrom_nil
    (distinct : (spans.map Span.spanId).Nodup) {done : List Identifier}
    (doneGrounded : ∀ identifier ∈ done, Grounded spans identifier)
    {rest : List Span} (nothing : cyclesFrom spans done rest = []) :
    ∀ span ∈ rest, Grounded spans span.spanId := by
  induction rest generalizing done with
  | nil => simp
  | cons first rest inductionHypothesis =>
      unfold cyclesFrom at nothing
      obtain ⟨noRepeat, nothingLater⟩ := List.append_eq_nil_iff.mp nothing
      have ends : (walk spans done first).repeated = none := by
        cases repeated : (walk spans done first).repeated with
        | none => rfl
        | some identifier => simp [repeated] at noRepeat
      obtain ⟨firstGrounded, metGrounded⟩ :=
        grounded_of_walkFrom distinct doneGrounded List.nodup_nil
          (fun _ _ => List.nil_subset _) (by simp) ends
      have laterDone :
          ∀ identifier ∈ (walk spans done first).visited ++ done,
            Grounded spans identifier := by
        intro identifier member
        rcases List.mem_append.mp member with met | before
        · rcases metGrounded identifier met with inNone | grounded
          · cases inNone
          · exact grounded
        · exact doneGrounded identifier before
      intro span member
      rcases List.mem_cons.mp member with rfl | inRest
      · exact firstGrounded span.spanId rfl
      · exact inductionHypothesis laterDone nothingLater span inRest

theorem not_transGen_of_grounded
    {identifier : Identifier} (grounded : Grounded spans identifier) :
    ¬Relation.TransGen (IsParent spans) identifier identifier := by
  have above := grounded.transGen
  induction above with
  | intro identifier _ inductionHypothesis =>
      intro around
      exact inductionHypothesis identifier around grounded around

theorem acyclic_of_cycles_nil
    (distinct : (spans.map Span.spanId).Nodup) (nothing : cycles spans = [])
    (identifier : Identifier) :
    ¬Relation.TransGen (IsParent spans) identifier identifier := by
  have allGrounded :=
    grounded_of_cyclesFrom_nil distinct (by simp)
      (List.map_eq_nil_iff.mp nothing)
  refine not_transGen_of_grounded ?_
  by_cases onSpan : identifier ∈ spans.map Span.spanId
  · obtain ⟨span, member, rfl⟩ := List.mem_map.mp onSpan
    exact allGrounded span member
  · refine Acc.intro identifier ?_
    rintro parent ⟨span, member, rfl, _⟩
    exact absurd (List.mem_map_of_mem member) onSpan

end Walks

/-! ## The whole tree -/

theorem isTree_of_treeViolations_nil
    {mode : Mode} {spans : List Span}
    (nothing : treeViolations mode spans = []) :
    IsTree spans ∧ (mode = .strict → NoOrphans spans) := by
  cases spans with
  | nil =>
      refine ⟨⟨List.nodup_nil, Or.inl rfl, ?_⟩, fun _ => by simp [NoOrphans]⟩
      exact acyclic_of_cycles_nil List.nodup_nil rfl
  | cons first rest =>
      simp only [treeViolations, List.append_eq_nil_iff] at nothing
      obtain ⟨⟨⟨⟨_, noDuplicates⟩, oneRoot⟩, noOrphans⟩, noCycles⟩ := nothing
      have distinct := distinct_of_duplicateSpans_nil noDuplicates
      refine
        ⟨⟨distinct, Or.inr (rooted_of_rootViolations_nil oneRoot),
            acyclic_of_cycles_nil distinct noCycles⟩, ?_⟩
      rintro rfl
      exact orphanSpans_eq_nil_iff.mp noOrphans

/-! ## Changes beside the tree -/

section Map

variable {spans : List Span} {change : Span → Span}
  (sameId : ∀ span, (change span).spanId = span.spanId)
  (sameParent : ∀ span, (change span).parentId = span.parentId)

include sameId sameParent

theorem isParent_map
    {parent child : Identifier} :
    IsParent (spans.map change) parent child ↔ IsParent spans parent child := by
  simp [IsParent, sameId, sameParent]

theorem noOrphans_map : NoOrphans (spans.map change) ↔ NoOrphans spans := by
  simp [NoOrphans, sameId, sameParent]

theorem IsTree.map (tree : IsTree spans) : IsTree (spans.map change) where
  distinct := by
    simpa [Function.comp_def, sameId] using tree.distinct
  rooted := by
    rcases tree.rooted with rfl | ⟨root, onlyRoot⟩
    · exact Or.inl rfl
    · have sameRoots : Span.isRoot ∘ change = Span.isRoot := by
        funext span
        simp [Span.isRoot, sameParent]
      refine Or.inr ⟨change root, ?_⟩
      rw [List.filter_map, sameRoots, onlyRoot]
      rfl
  acyclic identifier := by
    have sameParents :
        IsParent (spans.map change) = IsParent spans := by
      funext parent child
      exact propext (isParent_map sameId sameParent)
    rw [sameParents]
    exact tree.acyclic identifier

end Map

/-! ## What the check of a tree looks at -/

/-- Whether a change leaves all of a span that the check of a tree looks at. -/
structure KeepsPlaces (change : Span → Span) : Prop where
  traceId : ∀ span, (change span).traceId = span.traceId
  spanId : ∀ span, (change span).spanId = span.spanId
  parentId : ∀ span, (change span).parentId = span.parentId
  name : ∀ span, (change span).name = span.name

namespace KeepsPlaces

variable {change : Span → Span} (keeps : KeepsPlaces change)
  (spans : List Span)

include keeps

theorem label (span : Span) : (change span).label = span.label := by
  rw [Span.label, keeps.name, keeps.spanId, Span.label]

theorem map_spanId :
    (spans.map change).map Span.spanId = spans.map Span.spanId := by
  rw [List.map_map]
  exact List.map_congr_left fun span _ => keeps.spanId span

theorem foreignSpans (expected : Identifier) :
    Check.foreignSpans expected (spans.map change) =
      Check.foreignSpans expected spans := by
  simp only [Check.foreignSpans, List.filter_map, List.map_map,
    Function.comp_def, keeps.traceId, keeps.label]

theorem rootViolations :
    Check.rootViolations (spans.map change) = Check.rootViolations spans := by
  have sameRoots : Span.isRoot ∘ change = Span.isRoot := by
    funext span
    simp only [Function.comp_apply, Span.isRoot, keeps.parentId]
  have sameLabels : Span.label ∘ change = Span.label := funext keeps.label
  unfold Check.rootViolations
  rw [List.filter_map, sameRoots]
  cases spans.filter Span.isRoot with
  | nil => rfl
  | cons first others =>
      cases others with
      | nil => rfl
      | cons second rest =>
          simp only [List.map_cons, List.map_map, sameLabels, keeps.label]

theorem orphanSpans :
    Check.orphanSpans (spans.map change) = Check.orphanSpans spans := by
  have sameOrphans :
      orphanViolation? (spans.map change) ∘ change =
        orphanViolation? spans := by
    funext span
    rw [Function.comp_apply, orphanViolation?, keeps.parentId,
      orphanViolation?]
    cases span.parentId with
    | none => rfl
    | some parent =>
        have sameIds : isSpan (spans.map change) = isSpan spans := by
          funext identifier
          rw [isSpan, keeps.map_spanId, isSpan]
        rw [sameIds, keeps.label]
  rw [Check.orphanSpans, List.filterMap_map, sameOrphans, Check.orphanSpans]

theorem parentOf (identifier : Identifier) :
    Check.parentOf (spans.map change) identifier =
      Check.parentOf spans identifier := by
  have sameIds :
      (fun span : Span => span.spanId == identifier) ∘ change =
        fun span => span.spanId == identifier := by
    funext span
    simp only [Function.comp_apply, keeps.spanId]
  unfold Check.parentOf
  rw [List.find?_map, sameIds]
  cases spans.find? fun span => span.spanId == identifier with
  | none => rfl
  | some span => exact keeps.parentId span

theorem walkFrom
    (done : List Identifier) (steps : Nat) (visited : List Identifier)
    (next : Option Identifier) :
    Check.walkFrom (spans.map change) done steps visited next =
      Check.walkFrom spans done steps visited next := by
  induction steps generalizing visited next with
  | zero => rfl
  | succ steps inductionHypothesis =>
      cases next with
      | none => rfl
      | some identifier =>
          simp only [Check.walkFrom, keeps.parentOf, inductionHypothesis]

theorem cyclesFrom (done : List Identifier) (rest : List Span) :
    Check.cyclesFrom (spans.map change) done (rest.map change) =
      Check.cyclesFrom spans done rest := by
  induction rest generalizing done with
  | nil => rfl
  | cons first rest inductionHypothesis =>
      have sameWalk :
          walk (spans.map change) done (change first) =
            walk spans done first := by
        rw [walk, List.length_map, keeps.spanId, keeps.walkFrom, walk]
      rw [List.map_cons, Check.cyclesFrom, sameWalk, inductionHypothesis,
        Check.cyclesFrom]

/-- The check of a tree does not see the change. -/
theorem treeViolations (mode : Mode) :
    Check.treeViolations mode (spans.map change) =
      Check.treeViolations mode spans := by
  cases spans with
  | nil => rfl
  | cons first rest =>
      have sameDuplicates :
          duplicateSpans ((first :: rest).map change) =
            duplicateSpans (first :: rest) := by
        rw [duplicateSpans, keeps.map_spanId, duplicateSpans]
      have sameCycles :
          cycles ((first :: rest).map change) = cycles (first :: rest) := by
        rw [cycles, keeps.cyclesFrom, cycles]
      rw [List.map_cons, Check.treeViolations, keeps.traceId,
        ← List.map_cons, keeps.foreignSpans, sameDuplicates,
        keeps.rootViolations, keeps.orphanSpans, sameCycles,
        Check.treeViolations]

end KeepsPlaces

/-- A span of which only what the check of a tree looks at is left. -/
def bareSpan (span : Span) : Span :=
  { Span.plain span.traceId span.spanId span.name 0 0 with
    parentId := span.parentId }

theorem keepsPlaces_bareSpan : KeepsPlaces bareSpan :=
  ⟨fun _ => rfl, fun _ => rfl, fun _ => rfl, fun _ => rfl⟩

/-- Spans at the same places of trees get the same violations. -/
theorem treeViolations_congr
    {spans others : List Span}
    (same : spans.map bareSpan = others.map bareSpan) (mode : Mode) :
    treeViolations mode spans = treeViolations mode others := by
  rw [← keepsPlaces_bareSpan.treeViolations spans, same,
    keepsPlaces_bareSpan.treeViolations]

end TraceArchive.Check
