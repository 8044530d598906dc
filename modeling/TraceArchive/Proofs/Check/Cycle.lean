import TraceArchive.Proofs.Check.Ancestry

/-!
# The search for cycles

The parent of the first span with an identifier makes a map of identifiers. The
search walks along that map from every span and stops where an earlier walk has
been. It always comes to an end, whatever the spans are, and it names one
identifier on each cycle of the map: `cycles_eq`.
-/

namespace TraceArchive.Check

open Relation

/-! ## The walks without a bound -/

/-- With what a walk ends that has visited some identifiers and stands at
another one, when nothing bounds its steps. -/
inductive WalkEnds (spans : List Span) (done : List Identifier) :
    List Identifier → Option Identifier → Walk → Prop
  /-- There is no parent to go on to. -/
  | atRoot {visited : List Identifier} :
      WalkEnds spans done visited none ⟨visited, none⟩
  /-- An earlier walk was here. -/
  | atEarlier {visited : List Identifier} {identifier : Identifier} :
      identifier ∈ done →
      WalkEnds spans done visited (some identifier) ⟨visited, none⟩
  /-- The walk itself was here. -/
  | atItself {visited : List Identifier} {identifier : Identifier} :
      identifier ∉ done → identifier ∈ visited →
      WalkEnds spans done visited (some identifier)
        ⟨visited, some identifier⟩
  /-- The walk goes on to the parent. -/
  | onwards {visited : List Identifier} {identifier : Identifier}
      {met : Walk} :
      identifier ∉ done → identifier ∉ visited →
      WalkEnds spans done (identifier :: visited)
        (parentOf spans identifier) met →
      WalkEnds spans done visited (some identifier) met

/-- What a search names that has walks from some spans to go, when nothing
bounds the steps of the walks. -/
inductive SearchEnds (spans : List Span) :
    List Identifier → List Span → List Identifier → Prop
  | finished {done : List Identifier} : SearchEnds spans done [] []
  | walked {done found : List Identifier} {span : Span} {rest : List Span}
      {met : Walk} :
      WalkEnds spans done [] (some span.spanId) met →
      SearchEnds spans (met.visited ++ done) rest found →
      SearchEnds spans done (span :: rest) (met.repeated.toList ++ found)

section Ends

variable {spans : List Span} {done : List Identifier}

/-- The bound of a walk is never reached: all that it has visited when it goes
on are different identifiers of spans. -/
theorem walkEnds_walkFrom
    {steps : Nat} {visited : List Identifier} {current : Option Identifier}
    (unrepeated : visited.Nodup)
    (onSpans :
      ∀ next, current = some next → visited ⊆ spans.map Span.spanId)
    (enough : spans.length < steps + visited.length) :
    WalkEnds spans done visited current
      (walkFrom spans done steps visited current) := by
  induction steps generalizing visited current with
  | zero =>
      cases current with
      | none => exact .atRoot
      | some identifier =>
          have bounded :=
            unrepeated.length_le_of_subset (onSpans identifier rfl)
          rw [List.length_map] at bounded
          omega
  | succ steps inductionHypothesis =>
      cases current with
      | none => exact .atRoot
      | some identifier =>
          unfold walkFrom
          by_cases isDone : done.contains identifier = true
          · rw [if_pos isDone]
            exact .atEarlier (List.contains_iff_mem.mp isDone)
          · rw [if_neg isDone]
            have notDone : identifier ∉ done :=
              fun member => isDone (List.contains_iff_mem.mpr member)
            by_cases again : visited.contains identifier = true
            · rw [if_pos again]
              exact .atItself notDone (List.contains_iff_mem.mp again)
            · rw [if_neg again]
              have isNew : identifier ∉ visited :=
                fun member => again (List.contains_iff_mem.mpr member)
              refine .onwards notDone isNew (inductionHypothesis ?_ ?_ ?_)
              · exact List.nodup_cons.mpr ⟨isNew, unrepeated⟩
              · intro parent isParent
                exact
                  List.cons_subset.mpr
                    ⟨isSpan_of_parentOf isParent, onSpans identifier rfl⟩
              · rw [List.length_cons]
                omega

theorem walkEnds_walk (span : Span) :
    WalkEnds spans done [] (some span.spanId) (walk spans done span) := by
  refine walkEnds_walkFrom List.nodup_nil ?_ ?_
  · exact fun _ _ => List.nil_subset _
  · rw [List.length_nil]
    omega

/-- The search ends on every list of spans. -/
theorem searchEnds_cyclesFrom (rest : List Span) :
    SearchEnds spans done rest (cyclesFrom spans done rest) := by
  induction rest generalizing done with
  | nil => exact .finished
  | cons span rest inductionHypothesis =>
      exact .walked (walkEnds_walk span) inductionHypothesis

end Ends

/-! ## Cycles -/

/-- Whether the parents of an identifier lead back to it. -/
def OnCycle (spans : List Span) (identifier : Identifier) : Prop :=
  TransGen (Follows spans) identifier identifier

/-- Whether some identifiers are those that follow on one that lies on a
cycle. -/
def IsCycle (spans : List Span) (members : Set Identifier) : Prop :=
  ∃ identifier, OnCycle spans identifier ∧
    members = {other | TransGen (Follows spans) identifier other}

section Cycles

variable {spans : List Span} {identifier other : Identifier}

theorem follows_unique
    {parent : Identifier} (first : Follows spans identifier parent)
    (second : Follows spans identifier other) : parent = other :=
  Option.some.inj (first.symm.trans second)

theorem OnCycle.exists_follows (onCycle : OnCycle spans identifier) :
    ∃ parent, Follows spans identifier parent ∧
      ReflTransGen (Follows spans) parent identifier :=
  TransGen.head'_iff.mp onCycle

/-- What follows on an identifier of a cycle leads back to it, as an identifier
has one parent only. -/
theorem OnCycle.back
    (onCycle : OnCycle spans identifier)
    (leads : TransGen (Follows spans) identifier other) :
    TransGen (Follows spans) other identifier := by
  induction leads with
  | single step =>
      obtain ⟨parent, follows, returns⟩ := onCycle.exists_follows
      rw [follows_unique step follows]
      exact TransGen.trans_right returns onCycle
  | tail _ step inductionHypothesis =>
      obtain ⟨parent, follows, returns⟩ :=
        TransGen.head'_iff.mp inductionHypothesis
      rw [follows_unique step follows]
      exact TransGen.trans_right returns onCycle

theorem OnCycle.of_leads
    (onCycle : OnCycle spans identifier)
    (leads : TransGen (Follows spans) identifier other) :
    OnCycle spans other :=
  (onCycle.back leads).trans leads

/-- Identifiers of one cycle are followed by the same identifiers. -/
theorem OnCycle.members_eq
    (onCycle : OnCycle spans identifier)
    (leads : TransGen (Follows spans) identifier other) :
    {member | TransGen (Follows spans) identifier member} =
      {member | TransGen (Follows spans) other member} := by
  ext member
  exact ⟨(onCycle.back leads).trans, leads.trans⟩

end Cycles

/-! ## What a walk has met -/

/-- Whether the parents of some identifiers are among them. -/
def HoldsParents (spans : List Span) (identifiers : List Identifier) : Prop :=
  ∀ identifier ∈ identifiers, ∀ parent,
    Follows spans identifier parent → parent ∈ identifiers

theorem HoldsParents.leads
    {spans : List Span} {identifiers : List Identifier}
    {identifier other : Identifier}
    (holds : HoldsParents spans identifiers)
    (leads : TransGen (Follows spans) identifier other)
    (member : identifier ∈ identifiers) : other ∈ identifiers := by
  induction leads with
  | single step => exact holds _ member _ step
  | tail _ step inductionHypothesis =>
      exact holds _ inductionHypothesis _ step

namespace WalkEnds

variable {spans : List Span} {done visited : List Identifier}
  {current : Option Identifier} {met : Walk}

theorem visited_subset (ends : WalkEnds spans done visited current met) :
    visited ⊆ met.visited := by
  induction ends with
  | atRoot => exact List.Subset.refl _
  | atEarlier _ => exact List.Subset.refl _
  | atItself _ _ => exact List.Subset.refl _
  | onwards _ _ _ inductionHypothesis =>
      exact (List.cons_subset.mp inductionHypothesis).2

/-- A walk meets the identifier that it starts at, unless an earlier one did. -/
theorem start_mem
    {identifier : Identifier}
    (ends : WalkEnds spans done visited (some identifier) met) :
    identifier ∈ met.visited ++ done := by
  cases ends with
  | atEarlier isDone => exact List.mem_append_right _ isDone
  | atItself _ again => exact List.mem_append_left _ again
  | onwards _ _ ends =>
      exact List.mem_append_left _ (ends.visited_subset List.mem_cons_self)

/-- What is named is new and was met by the walk. -/
theorem repeated_mem
    (ends : WalkEnds spans done visited current met) {repeated : Identifier}
    (again : met.repeated = some repeated) :
    repeated ∉ done ∧ repeated ∈ met.visited := by
  induction ends with
  | atRoot => cases again
  | atEarlier _ => cases again
  | atItself notDone isVisited =>
      cases again
      exact ⟨notDone, isVisited⟩
  | onwards _ _ _ inductionHypothesis => exact inductionHypothesis again

/-- A walk goes on until the parents of all that it has visited were met. -/
theorem parent_mem
    (ends : WalkEnds spans done visited current met)
    (before :
      ∀ identifier ∈ visited, ∀ parent, Follows spans identifier parent →
        parent ∈ visited ∨ current = some parent) :
    ∀ identifier ∈ met.visited, ∀ parent,
      Follows spans identifier parent → parent ∈ met.visited ++ done := by
  induction ends with
  | atRoot =>
      intro identifier member parent follows
      rcases before identifier member parent follows with isVisited | isNext
      · exact List.mem_append_left _ isVisited
      · cases isNext
  | atEarlier isDone =>
      intro identifier member parent follows
      rcases before identifier member parent follows with isVisited | isNext
      · exact List.mem_append_left _ isVisited
      · cases isNext
        exact List.mem_append_right _ isDone
  | atItself _ again =>
      intro identifier member parent follows
      rcases before identifier member parent follows with isVisited | isNext
      · exact List.mem_append_left _ isVisited
      · cases isNext
        exact List.mem_append_left _ again
  | @onwards visited current met _ _ _ inductionHypothesis =>
      refine inductionHypothesis ?_
      intro identifier member parent follows
      rcases List.mem_cons.mp member with rfl | isVisited
      · exact Or.inr follows
      · rcases before identifier isVisited parent follows with
          parentVisited | isNext
        · exact Or.inl (List.mem_cons_of_mem _ parentVisited)
        · cases isNext
          exact Or.inl List.mem_cons_self

theorem holdsParents
    (ends : WalkEnds spans done [] current met)
    (holds : HoldsParents spans done) :
    HoldsParents spans (met.visited ++ done) := by
  intro identifier member parent follows
  rcases List.mem_append.mp member with isVisited | isDone
  · exact
      ends.parent_mem (List.forall_mem_nil _) identifier isVisited parent
        follows
  · exact List.mem_append_right _ (holds identifier isDone parent follows)

/-- A walk that has visited a part of a cycle goes round it, until it comes back
to where it was or to an earlier walk. -/
theorem goes_round
    (ends : WalkEnds spans done visited current met)
    (before :
      ∀ identifier ∈ visited, OnCycle spans identifier →
        ∃ next, current = some next ∧
          TransGen (Follows spans) identifier next) :
    ∀ identifier ∈ met.visited, OnCycle spans identifier →
      (∃ repeated, met.repeated = some repeated ∧
          TransGen (Follows spans) identifier repeated) ∨
        ∃ earlier ∈ done, TransGen (Follows spans) identifier earlier := by
  induction ends with
  | atRoot =>
      intro identifier member onCycle
      obtain ⟨next, isNext, _⟩ := before identifier member onCycle
      cases isNext
  | atEarlier isDone =>
      intro identifier member onCycle
      obtain ⟨next, isNext, leads⟩ := before identifier member onCycle
      cases isNext
      exact Or.inr ⟨_, isDone, leads⟩
  | atItself _ _ =>
      intro identifier member onCycle
      obtain ⟨next, isNext, leads⟩ := before identifier member onCycle
      exact Or.inl ⟨next, isNext, leads⟩
  | @onwards visited current met _ _ _ inductionHypothesis =>
      refine inductionHypothesis ?_
      intro identifier member onCycle
      rcases List.mem_cons.mp member with rfl | isVisited
      · obtain ⟨parent, follows, _⟩ := onCycle.exists_follows
        exact ⟨parent, follows, .single follows⟩
      · obtain ⟨next, isNext, leads⟩ := before identifier isVisited onCycle
        cases isNext
        obtain ⟨parent, follows, _⟩ :=
          (onCycle.of_leads leads).exists_follows
        exact ⟨parent, follows, leads.tail follows⟩

end WalkEnds

/-! ## One identifier for each cycle -/

namespace SearchEnds

variable {spans rest : List Span} {done found : List Identifier}
  {identifier : Identifier}

/-- What was met before does not lead to what is still named. -/
theorem not_leads
    (ends : SearchEnds spans done rest found) (holds : HoldsParents spans done)
    (isDone : identifier ∈ done) :
    ∀ named ∈ found, ¬TransGen (Follows spans) identifier named := by
  induction ends with
  | finished => exact List.forall_mem_nil _
  | walked walkEnds _ inductionHypothesis =>
      intro named member leads
      rcases List.mem_append.mp member with isRepeated | later
      · have isNew :=
          (walkEnds.repeated_mem (Option.mem_toList.mp isRepeated)).1
        exact isNew (holds.leads leads isDone)
      · exact
          inductionHypothesis (walkEnds.holdsParents holds)
            (List.mem_append_right _ isDone) named later leads

/-- A cycle that is still to be met is named. -/
theorem exists_named
    (ends : SearchEnds spans done rest found) (holds : HoldsParents spans done)
    (onCycle : OnCycle spans identifier) (isNew : identifier ∉ done)
    (toGo : identifier ∈ rest.map Span.spanId) :
    ∃ named ∈ found, TransGen (Follows spans) identifier named := by
  induction ends with
  | finished => cases toGo
  | @walked done found span rest met walkEnds _ inductionHypothesis =>
      by_cases isMet : identifier ∈ met.visited
      · have goesRound :=
          walkEnds.goes_round (List.forall_mem_nil _) identifier isMet onCycle
        rcases goesRound with
          ⟨repeated, again, leads⟩ | ⟨earlier, isDone, leads⟩
        · refine ⟨repeated, List.mem_append_left _ ?_, leads⟩
          exact Option.mem_toList.mpr again
        · exact absurd (holds.leads (onCycle.back leads) isDone) isNew
      · have stillNew : identifier ∉ met.visited ++ done := by
          rw [List.mem_append, not_or]
          exact ⟨isMet, isNew⟩
        have later : identifier ∈ rest.map Span.spanId := by
          rcases List.mem_cons.mp toGo with rfl | inRest
          · exact absurd walkEnds.start_mem stillNew
          · exact inRest
        obtain ⟨named, member, leads⟩ :=
          inductionHypothesis (walkEnds.holdsParents holds) stillNew later
        exact ⟨named, List.mem_append_right _ member, leads⟩

/-- No two named identifiers lie on one cycle. -/
theorem pairwise_not_leads
    (ends : SearchEnds spans done rest found)
    (holds : HoldsParents spans done) :
    found.Pairwise
      (fun earlier later => ¬TransGen (Follows spans) earlier later) := by
  induction ends with
  | finished => exact List.Pairwise.nil
  | @walked done found span rest met walkEnds searchEnds
      inductionHypothesis =>
      have holdsMet := walkEnds.holdsParents holds
      have others := inductionHypothesis holdsMet
      cases again : met.repeated with
      | none => exact others
      | some repeated =>
          have isMet := (walkEnds.repeated_mem again).2
          refine List.Pairwise.cons ?_ others
          exact searchEnds.not_leads holdsMet (List.mem_append_left _ isMet)

end SearchEnds

section Search

variable {spans : List Span}

theorem holdsParents_nil : HoldsParents spans [] :=
  List.forall_mem_nil _

theorem OnCycle.mem_spans
    {identifier : Identifier} (onCycle : OnCycle spans identifier) :
    identifier ∈ spans.map Span.spanId := by
  obtain ⟨parent, follows, _⟩ := onCycle.exists_follows
  exact isSpan_of_parentOf follows

/-- Without a bound on its steps the search ends with a list of identifiers, one
for each cycle and on that cycle, and these are reported. -/
theorem cycles_eq (spans : List Span) :
    ∃ named loops, SearchEnds spans [] spans named ∧
      loops.Nodup ∧ (∀ members, members ∈ loops ↔ IsCycle spans members) ∧
      List.Forall₂ (fun identifier members => identifier ∈ members) named
        loops ∧
      cycles spans =
        named.map (fun identifier => .malformedTrace (.cycle identifier)) := by
  have ends : SearchEnds spans [] spans (cyclesFrom spans [] spans) :=
    searchEnds_cyclesFrom spans
  have onCycle : ∀ named ∈ cyclesFrom spans [] spans, OnCycle spans named :=
    fun _ reported => onCycle_of_mem_cyclesFrom reported
  let loopOf : Identifier → Set Identifier :=
    fun identifier => {other | TransGen (Follows spans) identifier other}
  refine
    ⟨cyclesFrom spans [] spans, (cyclesFrom spans [] spans).map loopOf, ends,
      ?_, ?_, ?_, rfl⟩
  · refine List.pairwise_map.mpr ?_
    refine (ends.pairwise_not_leads holdsParents_nil).imp_of_mem ?_
    intro earlier later _ isLater different same
    have onLater : later ∈ loopOf later := onCycle later isLater
    rw [← same] at onLater
    exact different onLater
  · intro members
    rw [List.mem_map]
    constructor
    · rintro ⟨named, reported, rfl⟩
      exact ⟨named, onCycle named reported, rfl⟩
    · rintro ⟨identifier, round, rfl⟩
      obtain ⟨named, reported, leads⟩ :=
        ends.exists_named holdsParents_nil round List.not_mem_nil
          round.mem_spans
      exact ⟨named, reported, (round.members_eq leads).symm⟩
  · refine List.forall₂_map_right_iff.mpr (List.forall₂_same.mpr ?_)
    exact onCycle

end Search

end TraceArchive.Check
