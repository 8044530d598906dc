import Mathlib.Data.List.Nodup
import TraceArchive.Proofs.Check.Tree

/-!
# Which spans pass the check of a tree

The check accepts exactly the spans of one trace that differ in their
identifiers, have one root, and lead to it by their parents; in the lenient mode
they may also lead out of the trace. Whether they do does not depend on the
order of the spans. The main statement is `checkTree_eq_ok_iff`.
-/

namespace TraceArchive.Check

/-! ## Ancestors -/

/-- Whether the second span is among some spans and is the parent of the
first. -/
def HasParent (spans : List Span) (child parent : Span) : Prop :=
  parent ∈ spans ∧ child.parentId = some parent.spanId

/-- Whether finitely many steps from spans to their parents lead from the first
span to the second. -/
abbrev LeadsTo (spans : List Span) : Span → Span → Prop :=
  Relation.ReflTransGen (HasParent spans)

/-- Whether the parent of a span is no span. -/
def LeavesTrace (spans : List Span) (span : Span) : Prop :=
  ∃ parent, span.parentId = some parent ∧
    ∀ other ∈ spans, other.spanId ≠ parent

/-- Whether the parents from a span on lead to the root or, in the lenient mode,
to the root or out of the trace. -/
def Ends (spans : List Span) (root span : Span) : Mode → Prop
  | .strict => LeadsTo spans span root
  | .lenient =>
      ∃ last, LeadsTo spans span last ∧
        (last = root ∨ LeavesTrace spans last)

/-- Whether spans are those of one trace, which lead to a root. -/
structure IsRooted (mode : Mode) (spans : List Span) (root : Span) :
    Prop where
  sameTrace :
    ∀ span ∈ spans, ∀ other ∈ spans, span.traceId = other.traceId
  distinct : (spans.map Span.spanId).Nodup
  single : spans.filter Span.isRoot = [root]
  ends : ∀ span ∈ spans, Ends spans root span mode

/-! ## The order of the spans -/

section Perm

variable {spans others : List Span} (same : spans.Perm others)

include same

theorem leadsTo_perm {first last : Span} (leads : LeadsTo spans first last) :
    LeadsTo others first last :=
  Relation.ReflTransGen.mono
    (fun _ _ hasParent => ⟨same.mem_iff.mp hasParent.1, hasParent.2⟩)
    first last leads

theorem leavesTrace_perm {span : Span} (leaves : LeavesTrace spans span) :
    LeavesTrace others span := by
  obtain ⟨parent, hasParent, noSpan⟩ := leaves
  exact
    ⟨parent, hasParent, fun other member =>
      noSpan other (same.mem_iff.mpr member)⟩

theorem ends_perm
    {mode : Mode} {root span : Span} (ends : Ends spans root span mode) :
    Ends others root span mode := by
  cases mode with
  | strict => exact leadsTo_perm same ends
  | lenient =>
      obtain ⟨last, leads, isLast⟩ := ends
      exact
        ⟨last, leadsTo_perm same leads,
          isLast.imp_right (leavesTrace_perm same)⟩

theorem isRooted_perm
    {mode : Mode} {root : Span} (rooted : IsRooted mode spans root) :
    IsRooted mode others root where
  sameTrace span member other otherMember :=
    rooted.sameTrace span (same.mem_iff.mpr member) other
      (same.mem_iff.mpr otherMember)
  distinct := (same.map Span.spanId).nodup_iff.mp rooted.distinct
  single := by
    have sameRoots := same.filter Span.isRoot
    rw [rooted.single] at sameRoots
    exact List.perm_singleton.mp sameRoots.symm
  ends span member :=
    ends_perm same (rooted.ends span (same.mem_iff.mpr member))

end Perm

/-! ## Spans that pass -/

section Passing

variable {mode : Mode} {spans : List Span} {root : Span}

/-- Parents that come to an end lead to the root or to a span whose parent is no
span. -/
theorem ends_of_grounded
    (single : spans.filter Span.isRoot = [root])
    (noOrphans : mode = .strict → NoOrphans spans)
    {identifier : Identifier} (grounded : Grounded spans identifier)
    {span : Span} (member : span ∈ spans)
    (hasIdentifier : span.spanId = identifier) :
    Ends spans root span mode := by
  induction grounded generalizing span with
  | intro identifier _ inductionHypothesis =>
      cases hasParent : span.parentId with
      | none =>
          have inRoots : span ∈ spans.filter Span.isRoot :=
            List.mem_filter.mpr ⟨member, by rw [Span.isRoot, hasParent]; rfl⟩
          rw [single] at inRoots
          have isRoot := List.mem_singleton.mp inRoots
          subst isRoot
          cases mode with
          | strict => exact .refl
          | lenient => exact ⟨_, .refl, Or.inl rfl⟩
      | some parent =>
          by_cases isSpan : ∃ other ∈ spans, other.spanId = parent
          · obtain ⟨other, otherMember, rfl⟩ := isSpan
            have above :=
              inductionHypothesis other.spanId
                ⟨span, member, hasIdentifier, hasParent⟩ otherMember rfl
            have step : HasParent spans span other :=
              ⟨otherMember, hasParent⟩
            cases mode with
            | strict => exact .head step above
            | lenient =>
                obtain ⟨last, leads, isLast⟩ := above
                exact ⟨last, .head step leads, isLast⟩
          · cases mode with
            | strict =>
                exact absurd (noOrphans rfl span member parent hasParent) isSpan
            | lenient =>
                refine ⟨span, .refl, Or.inr ⟨parent, hasParent, ?_⟩⟩
                exact fun other otherMember same =>
                  isSpan ⟨other, otherMember, same⟩

theorem sameTrace_of_foreignSpans_nil
    {expected : Identifier} (nothing : foreignSpans expected spans = []) :
    ∀ span ∈ spans, span.traceId = expected := by
  intro span member
  have noForeigner := List.map_eq_nil_iff.mp nothing
  rw [List.filter_eq_nil_iff] at noForeigner
  simpa using noForeigner span member

theorem isRooted_of_treeViolations_nil
    {first : Span} {rest : List Span}
    (nothing : treeViolations mode (first :: rest) = []) :
    ∃ root, IsRooted mode (first :: rest) root := by
  simp only [treeViolations, List.append_eq_nil_iff, and_assoc] at nothing
  obtain ⟨noForeigner, noDuplicates, oneRoot, noOrphan, noCycles⟩ := nothing
  have ofFirst := sameTrace_of_foreignSpans_nil noForeigner
  have distinct := distinct_of_duplicateSpans_nil noDuplicates
  obtain ⟨root, single⟩ := rooted_of_rootViolations_nil oneRoot
  have noOrphans : mode = .strict → NoOrphans (first :: rest) := by
    rintro rfl
    exact orphanSpans_eq_nil_iff.mp noOrphan
  have grounded :=
    grounded_of_cyclesFrom_nil distinct (List.forall_mem_nil _)
      (List.map_eq_nil_iff.mp noCycles)
  refine ⟨root, ?_, distinct, single, fun span member => ?_⟩
  · intro span member other otherMember
    rw [ofFirst span member, ofFirst other otherMember]
  · exact
      ends_of_grounded single noOrphans (grounded span member) member rfl

end Passing

/-! ## Walks that meet themselves -/

/-- Whether the second identifier is the parent of the first span with the
first identifier. -/
def Follows (spans : List Span) (child parent : Identifier) : Prop :=
  parentOf spans child = some parent

theorem isParent_of_follows
    {spans : List Span} {child parent : Identifier}
    (follows : Follows spans child parent) : IsParent spans parent child := by
  unfold Follows parentOf at follows
  split at follows
  · cases follows
  · rename_i span found
    have same := List.find?_some found
    exact
      ⟨span, List.mem_of_find?_eq_some found, by simpa using same, follows⟩

/-- An identifier that a walk meets again lies on a cycle, as all that it has
met leads to where it is. -/
theorem onCycle_of_walkFrom
    {spans : List Span} {done : List Identifier} {steps : Nat}
    {visited : List Identifier} {current : Option Identifier}
    {repeated : Identifier}
    (leads :
      ∀ earlier ∈ visited, ∀ next, current = some next →
        Relation.TransGen (Follows spans) earlier next)
    (again :
      (walkFrom spans done steps visited current).repeated = some repeated) :
    Relation.TransGen (Follows spans) repeated repeated := by
  induction steps generalizing visited current with
  | zero => cases again
  | succ steps inductionHypothesis =>
      cases current with
      | none => cases again
      | some identifier =>
          unfold walkFrom at again
          split at again
          · cases again
          · split at again
            · rename_i _ met
              cases again
              exact
                leads repeated (List.contains_iff_mem.mp met) repeated rfl
            · refine inductionHypothesis ?_ again
              intro earlier member next isNext
              have step : Follows spans identifier next := isNext
              rcases List.mem_cons.mp member with rfl | before
              · exact .single step
              · exact (leads earlier before identifier rfl).tail step

/-- Every reported identifier lies on a cycle. -/
theorem onCycle_of_mem_cyclesFrom
    {spans : List Span} {done : List Identifier} {rest : List Span}
    {identifier : Identifier}
    (reported : identifier ∈ cyclesFrom spans done rest) :
    Relation.TransGen (Follows spans) identifier identifier := by
  induction rest generalizing done with
  | nil => cases reported
  | cons first rest inductionHypothesis =>
      unfold cyclesFrom at reported
      rcases List.mem_append.mp reported with fromFirst | later
      · refine onCycle_of_walkFrom ?_ (Option.mem_toList.mp fromFirst)
        exact List.forall_mem_nil _
      · exact inductionHypothesis later

/-! ## Trees pass -/

theorem repeatedIds_of_distinct
    {seen identifiers : List Identifier} (distinct : identifiers.Nodup)
    (unseen : ∀ identifier ∈ identifiers, identifier ∉ seen) :
    repeatedIds seen [] identifiers = [] := by
  induction identifiers generalizing seen with
  | nil => rfl
  | cons identifier rest inductionHypothesis =>
      rw [List.nodup_cons] at distinct
      rw [List.forall_mem_cons] at unseen
      have isNew : ¬seen.contains identifier = true :=
        fun isSeen => unseen.1 (List.contains_iff_mem.mp isSeen)
      rw [repeatedIds, if_neg isNew]
      refine inductionHypothesis distinct.2 fun other inRest isSeen => ?_
      rcases List.mem_cons.mp isSeen with rfl | before
      · exact distinct.1 inRest
      · exact unseen.2 other inRest before

section Rooted

variable {mode : Mode} {spans : List Span} {root : Span}

/-- Where the parents from a span on end, they do so at a span without a parent
or with one that is no span. -/
theorem Ends.exists_last
    (isRoot : root.parentId = none) {span : Span}
    (ends : Ends spans root span mode) :
    ∃ last, LeadsTo spans span last ∧
      ∀ parent, last.parentId = some parent →
        ∀ other ∈ spans, other.spanId ≠ parent := by
  have ofRoot :
      ∀ parent, root.parentId = some parent →
        ∀ other ∈ spans, other.spanId ≠ parent := by
    intro parent isParent
    rw [isRoot] at isParent
    cases isParent
  cases mode with
  | strict => exact ⟨root, ends, ofRoot⟩
  | lenient =>
      obtain ⟨last, leads, rfl | ⟨outside, isOutside, noSpan⟩⟩ := ends
      · exact ⟨last, leads, ofRoot⟩
      · refine ⟨last, leads, fun parent isParent => ?_⟩
        rw [isOutside] at isParent
        cases isParent
        exact noSpan

theorem grounded_of_leadsTo
    (distinct : (spans.map Span.spanId).Nodup) {span last : Span}
    (member : span ∈ spans) (leads : LeadsTo spans span last)
    (noParent :
      ∀ parent, last.parentId = some parent →
        ∀ other ∈ spans, other.spanId ≠ parent) :
    Grounded spans span.spanId := by
  have onlyParent : ∀ child ∈ spans, ∀ parent,
      IsParent spans parent child.spanId → child.parentId = some parent := by
    rintro child childMember parent ⟨other, otherMember, sameId, isParent⟩
    have same : other = child :=
      List.inj_on_of_nodup_map distinct otherMember childMember sameId
    rw [← same, isParent]
  induction leads using Relation.ReflTransGen.head_induction_on with
  | refl =>
      refine Acc.intro _ fun parent isParent => Acc.intro _ ?_
      rintro beyond ⟨other, otherMember, isOther, -⟩
      have noSpan := noParent parent (onlyParent last member parent isParent)
      exact absurd isOther (noSpan other otherMember)
  | @head child above step _ inductionHypothesis =>
      refine Acc.intro _ fun parent isParent => ?_
      have isAbove := onlyParent child member parent isParent
      rw [step.2] at isAbove
      cases isAbove
      exact inductionHypothesis step.1

theorem IsRooted.isRoot (rooted : IsRooted mode spans root) :
    root ∈ spans ∧ root.parentId = none := by
  have inRoots : root ∈ spans.filter Span.isRoot := by
    rw [rooted.single]
    exact List.mem_singleton_self root
  obtain ⟨member, isRoot⟩ := List.mem_filter.mp inRoots
  exact ⟨member, Option.isNone_iff_eq_none.mp isRoot⟩

theorem IsRooted.noCycles (rooted : IsRooted mode spans root) :
    cycles spans = [] := by
  refine List.map_eq_nil_iff.mpr (List.eq_nil_iff_forall_not_mem.mpr ?_)
  intro identifier reported
  have onCycle := onCycle_of_mem_cyclesFrom reported
  have around :
      Relation.TransGen (IsParent spans) identifier identifier :=
    Relation.transGen_swap.mp
      (Relation.TransGen.mono
        (fun _ _ follows => isParent_of_follows follows) _ _ onCycle)
  obtain ⟨parent, follows, -⟩ := Relation.TransGen.head'_iff.mp onCycle
  obtain ⟨span, member, rfl, -⟩ := isParent_of_follows follows
  obtain ⟨last, leads, noParent⟩ :=
    (rooted.ends span member).exists_last rooted.isRoot.2
  exact
    not_transGen_of_grounded
      (grounded_of_leadsTo rooted.distinct member leads noParent) around

theorem IsRooted.noOrphans (rooted : IsRooted .strict spans root) :
    NoOrphans spans := by
  intro span member parent isParent
  have leads : LeadsTo spans span root := rooted.ends span member
  rcases Relation.ReflTransGen.cases_head leads with rfl | ⟨other, step, -⟩
  · rw [rooted.isRoot.2] at isParent
    cases isParent
  · refine ⟨other, step.1, ?_⟩
    rw [step.2] at isParent
    exact Option.some.inj isParent

theorem IsRooted.treeViolations_eq_nil (rooted : IsRooted mode spans root) :
    treeViolations mode spans = [] := by
  cases spans with
  | nil => rfl
  | cons first rest =>
      have noForeigner : foreignSpans first.traceId (first :: rest) = [] := by
        refine List.map_eq_nil_iff.mpr (List.filter_eq_nil_iff.mpr ?_)
        intro span member
        simpa using rooted.sameTrace span member first List.mem_cons_self
      have noDuplicates : duplicateSpans (first :: rest) = [] :=
        List.map_eq_nil_iff.mpr
          (repeatedIds_of_distinct rooted.distinct
            fun _ _ => List.not_mem_nil)
      have oneRoot : rootViolations (first :: rest) = [] := by
        rw [rootViolations, rooted.single]
      have noOrphan :
          (if mode = .strict then orphanSpans (first :: rest) else []) =
            [] := by
        split
        · rename_i isStrict
          subst isStrict
          exact orphanSpans_eq_nil_iff.mpr rooted.noOrphans
        · rfl
      rw [treeViolations, noForeigner, noDuplicates, oneRoot, noOrphan,
        rooted.noCycles]
      rfl

end Rooted

/-! ## The check -/

theorem checkTree_eq_ok_iff_nil {mode : Mode} {spans : List Span} :
    checkTree mode spans = .ok () ↔ treeViolations mode spans = [] := by
  unfold checkTree
  cases treeViolations mode spans with
  | nil => simp only
  | cons violation rest => simp only [reduceCtorEq]

theorem passes_iff {mode : Mode} {spans : List Span} :
    checkTree mode spans = .ok () ↔
      spans = [] ∨ ∃ root, IsRooted mode spans root := by
  rw [checkTree_eq_ok_iff_nil]
  constructor
  · intro nothing
    cases spans with
    | nil => exact Or.inl rfl
    | cons first rest => exact Or.inr (isRooted_of_treeViolations_nil nothing)
  · rintro (rfl | ⟨root, rooted⟩)
    · rfl
    · exact rooted.treeViolations_eq_nil

/-- The check accepts exactly the empty list and the spans of one trace with
distinct identifiers and one root, from each of which the parents lead to the
root in finitely many steps, or in the lenient mode to the root or to an
identifier that is no span's. So the order of the spans does not matter. -/
theorem checkTree_eq_ok_iff (mode : Mode) (spans : List Span) :
    (checkTree mode spans = .ok () ↔
        spans = [] ∨ ∃ root, IsRooted mode spans root) ∧
      ∀ others, spans.Perm others →
        (checkTree mode others = .ok () ↔ checkTree mode spans = .ok ()) := by
  refine ⟨passes_iff, fun others same => ?_⟩
  rw [passes_iff, passes_iff]
  constructor
  · rintro (rfl | ⟨root, rooted⟩)
    · exact Or.inl (List.perm_nil.mp same)
    · exact Or.inr ⟨root, isRooted_perm same.symm rooted⟩
  · rintro (rfl | ⟨root, rooted⟩)
    · exact Or.inl (List.nil_perm.mp same)
    · exact Or.inr ⟨root, isRooted_perm same rooted⟩

end TraceArchive.Check
