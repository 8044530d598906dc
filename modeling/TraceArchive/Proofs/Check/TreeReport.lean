import TraceArchive.Proofs.Check.Cycle

/-!
# What the check of a tree reports

The check of the spans of a trace reports each fault of their tree once and
nothing else: the spans of other traces, the identifiers of several spans, the
number of roots, in the strict mode the spans whose parents are no spans, and
the cycles. The main statement is `checkTree_reports`.
-/

namespace TraceArchive.Check

/-! ## Repeated identifiers -/

/-- Whether an identifier stands at a place for the second time. -/
def IsSecond (identifiers : List Identifier) (identifier : Identifier)
    (place : Nat) : Prop :=
  identifiers[place]? = some identifier ∧
    (identifiers.take place).count identifier = 1

/-- Whether some identifiers are those that occur for the second time after the
first part of a list, in the order of these occurrences. -/
structure RepeatsAfter (before rest repeated : List Identifier) : Prop where
  distinct : repeated.Nodup
  mem_iff :
    ∀ identifier, identifier ∈ repeated ↔
      before.count identifier ≤ 1 ∧ 1 < (before ++ rest).count identifier
  ordered :
    ∃ places : List Nat, places.Pairwise (· < ·) ∧
      (∀ place ∈ places, before.length ≤ place) ∧
      List.Forall₂ (IsSecond (before ++ rest)) repeated places

namespace RepeatsAfter

variable {before rest repeated : List Identifier} {identifier : Identifier}

theorem nil : RepeatsAfter before [] [] where
  distinct := List.nodup_nil
  mem_iff identifier := by
    rw [List.append_nil]
    simp only [List.not_mem_nil, false_iff, not_and, Nat.not_lt, imp_self]
  ordered := ⟨[], List.Pairwise.nil, List.forall_mem_nil _, .nil⟩

theorem count_concat_self (before : List Identifier) (last : Identifier) :
    (before ++ [last]).count last = before.count last + 1 := by
  rw [List.count_append, List.count_singleton_self]

theorem count_concat_of_ne
    (before : List Identifier) {last other : Identifier}
    (different : other ≠ last) :
    (before ++ [last]).count other = before.count other := by
  have absent : [last].count other = 0 :=
    List.count_eq_zero.mpr fun member =>
      different (List.mem_singleton.mp member)
  rw [List.count_append, absent, Nat.add_zero]

/-- An identifier that does not occur for the second time leaves those that
occur again. -/
theorem one_lt_count_concat
    (notSecond : before.count identifier ≠ 1) (other : Identifier) :
    1 < (before ++ [identifier]).count other ↔ 1 < before.count other := by
  by_cases same : other = identifier
  · subst same
    rw [count_concat_self]
    omega
  · rw [count_concat_of_ne before same]

/-- An identifier that occurs for the second time is one more of those that
occur again. -/
theorem one_lt_count_concat_of_second
    (once : before.count identifier = 1) (other : Identifier) :
    1 < (before ++ [identifier]).count other ↔
      other = identifier ∨ 1 < before.count other := by
  by_cases same : other = identifier
  · subst same
    rw [count_concat_self]
    exact iff_of_true (by omega) (Or.inl rfl)
  · rw [count_concat_of_ne before same]
    exact (or_iff_right same).symm

/-- An identifier that is new, or known to be repeated, adds nothing. -/
theorem pass
    (notSecond : before.count identifier ≠ 1)
    (later : RepeatsAfter (before ++ [identifier]) rest repeated) :
    RepeatsAfter before (identifier :: rest) repeated where
  distinct := later.distinct
  mem_iff other := by
    have ofLater := later.mem_iff other
    rw [List.append_assoc, List.singleton_append] at ofLater
    rw [ofLater]
    by_cases same : other = identifier
    · subst same
      rw [count_concat_self]
      have whole : (before ++ other :: rest).count other =
          before.count other + (rest.count other + 1) := by
        rw [List.count_append, List.count_cons_self]
      omega
    · rw [count_concat_of_ne before same]
  ordered := by
    obtain ⟨places, ascending, beyond, areSecond⟩ := later.ordered
    rw [List.append_assoc, List.singleton_append] at areSecond
    refine ⟨places, ascending, fun place member => ?_, areSecond⟩
    have isBeyond := beyond place member
    rw [List.length_append, List.length_singleton] at isBeyond
    omega

/-- An identifier that occurred once is repeated here. -/
theorem second
    (once : before.count identifier = 1)
    (later : RepeatsAfter (before ++ [identifier]) rest repeated) :
    RepeatsAfter before (identifier :: rest) (identifier :: repeated) where
  distinct := by
    refine List.nodup_cons.mpr ⟨fun again => ?_, later.distinct⟩
    have atMostOnce := ((later.mem_iff identifier).mp again).1
    rw [count_concat_self] at atMostOnce
    omega
  mem_iff other := by
    have ofLater := later.mem_iff other
    rw [List.append_assoc, List.singleton_append] at ofLater
    rw [List.mem_cons, ofLater]
    by_cases same : other = identifier
    · subst same
      refine iff_of_true (Or.inl rfl) ⟨Nat.le_of_eq once, ?_⟩
      rw [List.count_append, List.count_cons_self]
      omega
    · rw [count_concat_of_ne before same]
      exact or_iff_right same
  ordered := by
    obtain ⟨places, ascending, beyond, areSecond⟩ := later.ordered
    rw [List.append_assoc, List.singleton_append] at areSecond
    have isHere :
        IsSecond (before ++ identifier :: rest) identifier before.length := by
      refine ⟨?_, ?_⟩
      · rw [List.getElem?_append_right (Nat.le_refl _), Nat.sub_self]
        rfl
      · rw [List.take_left]
        exact once
    have isBeyond : ∀ place ∈ places, before.length < place := by
      intro place member
      have bound := beyond place member
      rw [List.length_append, List.length_singleton] at bound
      omega
    refine ⟨before.length :: places, ascending.cons isBeyond, ?_,
      .cons isHere areSecond⟩
    refine List.forall_mem_cons.mpr ⟨Nat.le_refl _, fun place member => ?_⟩
    exact Nat.le_of_lt (isBeyond place member)

end RepeatsAfter

/-- The identifiers that occur again are found with the help of those that were
seen and those that were reported. -/
theorem repeatsAfter_repeatedIds
    {before seen reported rest : List Identifier}
    (isSeen : ∀ identifier, identifier ∈ seen ↔ identifier ∈ before)
    (isReported :
      ∀ identifier, identifier ∈ reported ↔ 1 < before.count identifier) :
    RepeatsAfter before rest (repeatedIds seen reported rest) := by
  induction rest generalizing before seen reported with
  | nil => exact .nil
  | cons identifier rest inductionHypothesis =>
      unfold repeatedIds
      by_cases known : seen.contains identifier = true
      · rw [if_pos known]
        have occurred : identifier ∈ before :=
          (isSeen identifier).mp (List.contains_iff_mem.mp known)
        have positive := List.count_pos_iff.mpr occurred
        have stillSeen :
            ∀ other, other ∈ seen ↔ other ∈ before ++ [identifier] := by
          intro other
          rw [isSeen, List.mem_append, List.mem_singleton]
          exact ⟨Or.inl, fun member => member.elim id (· ▸ occurred)⟩
        by_cases told : reported.contains identifier = true
        · rw [if_pos told]
          have twice :=
            (isReported identifier).mp (List.contains_iff_mem.mp told)
          have notSecond : before.count identifier ≠ 1 := by omega
          refine .pass notSecond (inductionHypothesis stillSeen fun other => ?_)
          rw [isReported, RepeatsAfter.one_lt_count_concat notSecond]
        · rw [if_neg told]
          have notTwice : ¬1 < before.count identifier := fun twice =>
            told (List.contains_iff_mem.mpr ((isReported identifier).mpr twice))
          have once : before.count identifier = 1 := by omega
          refine .second once (inductionHypothesis stillSeen fun other => ?_)
          rw [List.mem_cons, isReported,
            RepeatsAfter.one_lt_count_concat_of_second once]
      · rw [if_neg known]
        have isNew : identifier ∉ before := fun occurred =>
          known (List.contains_iff_mem.mpr ((isSeen identifier).mpr occurred))
        have never := List.count_eq_zero.mpr isNew
        have notSecond : before.count identifier ≠ 1 := by omega
        refine .pass notSecond (inductionHypothesis ?_ fun other => ?_)
        · intro other
          rw [List.mem_cons, isSeen, List.mem_append, List.mem_singleton]
          exact or_comm
        · rw [isReported, RepeatsAfter.one_lt_count_concat notSecond]

/-! ## Roots and orphans -/

/-- What is reported about the number of roots. -/
inductive RootReport (spans : List Span) : List Violation → Prop
  | one : spans.countP Span.isRoot = 1 → RootReport spans []
  | none : spans.countP Span.isRoot = 0 →
      RootReport spans [.malformedTrace .noRoot]
  | many : 1 < spans.countP Span.isRoot →
      RootReport spans
        [.malformedTrace
          (.manyRoots ((spans.filter Span.isRoot).map Span.label))]

theorem rootReport_rootViolations (spans : List Span) :
    RootReport spans (rootViolations spans) := by
  unfold rootViolations
  split
  · rename_i noRoots
    refine .none ?_
    rw [List.countP_eq_length_filter, noRoots]
    rfl
  · rename_i root oneRoot
    refine .one ?_
    rw [List.countP_eq_length_filter, oneRoot]
    rfl
  · rename_i notNone notOne
    refine .many ?_
    rw [List.countP_eq_length_filter]
    match roots : spans.filter Span.isRoot with
    | [] => exact absurd roots notNone
    | [root] => exact absurd roots (notOne root)
    | _ :: _ :: _ =>
        rw [List.length_cons, List.length_cons]
        omega

instance (spans : List Span) (span : Span) :
    Decidable (LeavesTrace spans span) :=
  decidable_of_iff
    (∃ parent ∈ span.parentId, ∀ other ∈ spans, other.spanId ≠ parent)
    (by simp only [LeavesTrace, Option.mem_def])

/-- Whether a violation tells that the parent of a span is no span. -/
def TellsOrphan (span : Span) (violation : Violation) : Prop :=
  ∃ parent, span.parentId = some parent ∧
    violation = .orphanSpan span.label parent

theorem orphanViolation?_of_leavesTrace
    {spans : List Span} {span : Span} (leaves : LeavesTrace spans span) :
    ∃ violation, orphanViolation? spans span = some violation ∧
      TellsOrphan span violation := by
  obtain ⟨parent, hasParent, noSpan⟩ := leaves
  have notSpan : ¬isSpan spans parent = true := by
    intro among
    obtain ⟨other, member, same⟩ :=
      List.mem_map.mp (List.contains_iff_mem.mp among)
    exact noSpan other member same
  refine ⟨.orphanSpan span.label parent, ?_, parent, hasParent, rfl⟩
  simp only [orphanViolation?, hasParent, if_neg notSpan]

theorem orphanViolation?_of_not_leavesTrace
    {spans : List Span} {span : Span} (stays : ¬LeavesTrace spans span) :
    orphanViolation? spans span = none := by
  refine orphanViolation?_eq_none_iff.mpr fun parent hasParent => ?_
  by_contra noSpan
  exact stays ⟨parent, hasParent, fun other member same =>
    noSpan ⟨other, member, same⟩⟩

theorem forall₂_tellsOrphan (spans others : List Span) :
    List.Forall₂ TellsOrphan
      (others.filter fun span => LeavesTrace spans span)
      (others.filterMap (orphanViolation? spans)) := by
  induction others with
  | nil => exact .nil
  | cons span rest inductionHypothesis =>
      by_cases leaves : LeavesTrace spans span
      · obtain ⟨violation, isViolation, tells⟩ :=
          orphanViolation?_of_leavesTrace leaves
        rw [List.filter_cons_of_pos (by simpa using leaves),
          List.filterMap_cons_some isViolation]
        exact .cons tells inductionHypothesis
      · rw [List.filter_cons_of_neg (by simpa using leaves),
          List.filterMap_cons_none
            (orphanViolation?_of_not_leavesTrace leaves)]
        exact inductionHypothesis

/-! ## The whole report -/

/-- A report about the tree of some spans, by the kinds of faults. -/
structure TreeReport where
  foreign : List Violation
  repeated : List Violation
  roots : List Violation
  orphans : List Violation
  cycles : List Violation

namespace TreeReport

/-- All that is reported, in its order. -/
def all (report : TreeReport) : List Violation :=
  report.foreign ++ report.repeated ++ report.roots ++ report.orphans ++
    report.cycles

/-- Whether a report tells each fault of the tree of some spans once and nothing
else, if the spans should be those of an expected trace. -/
structure IsExact (mode : Mode) (spans : List Span) (expected : Identifier)
    (report : TreeReport) : Prop where
  /-- The spans of other traces, in their order. -/
  foreign :
    report.foreign =
      (spans.filter fun span => span.traceId ≠ expected).map
        (fun span =>
          .malformedTrace (.foreignSpan span.label span.traceId expected))
  /-- Each identifier that several spans have once, in the order of the second
  spans that have it. -/
  repeated :
    ∃ identifiers : List Identifier,
      report.repeated = identifiers.map .duplicateSpan ∧
      identifiers.Nodup ∧
      (∀ identifier, identifier ∈ identifiers ↔
        1 < (spans.map Span.spanId).count identifier) ∧
      ∃ places : List Nat, places.Pairwise (· < ·) ∧
        List.Forall₂ (IsSecond (spans.map Span.spanId)) identifiers places
  /-- One violation if there is not one root, and none otherwise. -/
  roots : RootReport spans report.roots
  /-- The spans whose parents are no spans, in their order. -/
  orphans :
    match mode with
    | .strict =>
        List.Forall₂ TellsOrphan
          (spans.filter fun span => LeavesTrace spans span) report.orphans
    | .lenient => report.orphans = []
  /-- One identifier on each cycle; the search for them ends by itself. -/
  cycles :
    ∃ named loops, SearchEnds spans [] spans named ∧
      loops.Nodup ∧ (∀ members, members ∈ loops ↔ IsCycle spans members) ∧
      List.Forall₂ (fun identifier members => identifier ∈ members) named
        loops ∧
      report.cycles =
        named.map (fun identifier => .malformedTrace (.cycle identifier))

/-- The report of the check. -/
def ofSpans (mode : Mode) (spans : List Span) (expected : Identifier) :
    TreeReport where
  foreign := foreignSpans expected spans
  repeated := duplicateSpans spans
  roots := rootViolations spans
  orphans := if mode = .strict then orphanSpans spans else []
  cycles := Check.cycles spans

theorem isExact_ofSpans
    (mode : Mode) (spans : List Span) (expected : Identifier) :
    (ofSpans mode spans expected).IsExact mode spans expected where
  foreign := rfl
  repeated := by
    have repeats :
        RepeatsAfter [] (spans.map Span.spanId)
          (repeatedIds [] [] (spans.map Span.spanId)) :=
      repeatsAfter_repeatedIds (fun _ => Iff.rfl) (by simp)
    obtain ⟨places, ascending, _, areSecond⟩ := repeats.ordered
    refine ⟨_, rfl, repeats.distinct, ?_, places, ascending, areSecond⟩
    intro identifier
    rw [repeats.mem_iff]
    exact and_iff_right (Nat.zero_le 1)
  roots := rootReport_rootViolations spans
  orphans := by
    cases mode with
    | strict => exact forall₂_tellsOrphan spans spans
    | lenient => rfl
  cycles := cycles_eq spans

end TreeReport

/-- An empty list of spans passes. On every other list the check reports, in
this order, the spans of other traces than the first, the identifiers of several
spans, the number of roots if it is not one, in the strict mode the spans whose
parents are no spans, and the cycles of the map from the identifiers to the
parents of the first spans that have them, each fault once; the search for
cycles ends by itself. -/
theorem checkTree_reports (mode : Mode) :
    checkTree mode [] = .ok () ∧
      ∀ (first : Span) (rest : List Span), ∃ report : TreeReport,
        report.IsExact mode (first :: rest) first.traceId ∧
          checkTree mode (first :: rest) =
            if report.all = [] then .ok () else .error report.all := by
  refine ⟨rfl, fun first rest => ?_⟩
  let report := TreeReport.ofSpans mode (first :: rest) first.traceId
  refine ⟨report, TreeReport.isExact_ofSpans _ _ _, ?_⟩
  have isReport : treeViolations mode (first :: rest) = report.all := rfl
  unfold checkTree
  rw [isReport]
  cases report.all with
  | nil => rfl
  | cons violation others => rfl

/-- The empty list has not one root and passes nevertheless. -/
theorem rootless_empty_passes :
    ([] : List Span).countP Span.isRoot ≠ 1 ∧
      checkTree .strict [] = .ok () ∧ checkTree .lenient [] = .ok () :=
  ⟨by decide, rfl, rfl⟩

end TraceArchive.Check
