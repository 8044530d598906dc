import Mathlib.Data.List.Nodup
import TraceArchive.Proofs.Check.Written

/-!
# What the check of a span reports

A report lists one violation for each place of a span at which something is
wrong, and nothing else. The check of a span gives such a report but for one
place: that a span ends before it starts is not told while an identifier or the
name is lacking. The main statement is `checkSpan_reports`.
-/

namespace TraceArchive.Check

/-! ## Reports -/

/-- Whether violations are those of all places at which something is wrong: one
for each place, and no others. -/
def ReportsOnce {Place : Type} (wrong : Place → Violation → Prop)
    (violations : List Violation) : Prop :=
  ∃ placed : List (Place × Violation),
    placed.map Prod.snd = violations ∧ (placed.map Prod.fst).Nodup ∧
      ∀ place violation, (place, violation) ∈ placed ↔ wrong place violation

namespace ReportsOnce

variable {Place : Type} {wrong other : Place → Violation → Prop}
  {violations more : List Violation}

theorem congr
    (reports : ReportsOnce wrong violations)
    (same : ∀ place violation, other place violation ↔ wrong place violation) :
    ReportsOnce other violations := by
  obtain ⟨placed, areAll, distinct, isPlaced⟩ := reports
  exact
    ⟨placed, areAll, distinct, fun place violation =>
      (isPlaced place violation).trans (same place violation).symm⟩

theorem nil
    (nowhere : ∀ place violation, ¬wrong place violation) :
    ReportsOnce wrong [] := by
  refine ⟨[], rfl, List.nodup_nil, fun place violation => ?_⟩
  constructor
  · intro member
    cases member
  · exact fun isWrong => absurd isWrong (nowhere place violation)

theorem nowhere_of_nil (reports : ReportsOnce wrong []) :
    ∀ place violation, ¬wrong place violation := by
  obtain ⟨placed, areAll, -, isPlaced⟩ := reports
  obtain rfl := List.map_eq_nil_iff.mp areAll
  intro place violation isWrong
  cases (isPlaced place violation).mpr isWrong

theorem append
    (reports : ReportsOnce wrong violations) (others : ReportsOnce other more)
    (apart :
      ∀ place violation another,
        wrong place violation → ¬other place another) :
    ReportsOnce
      (fun place violation => wrong place violation ∨ other place violation)
      (violations ++ more) := by
  obtain ⟨placed, rfl, distinct, isPlaced⟩ := reports
  obtain ⟨placedOthers, rfl, distinctOthers, isPlacedOther⟩ := others
  refine ⟨placed ++ placedOthers, List.map_append, ?_, ?_⟩
  · rw [List.map_append]
    refine distinct.append distinctOthers ?_
    intro place isFirst isSecond
    obtain ⟨⟨_, violation⟩, member, rfl⟩ := List.mem_map.mp isFirst
    obtain ⟨⟨_, another⟩, otherMember, same⟩ := List.mem_map.mp isSecond
    cases same
    exact
      apart _ violation another ((isPlaced _ violation).mp member)
        ((isPlacedOther _ another).mp otherMember)
  · intro place violation
    rw [List.mem_append, isPlaced, isPlacedOther]

/-- The places may be called otherwise. -/
theorem relabel
    {Inner : Type} {wrongInner : Inner → Violation → Prop}
    (reports : ReportsOnce wrongInner violations) {label : Inner → Place}
    (injective : Function.Injective label) :
    ReportsOnce
      (fun place violation =>
        ∃ inner, label inner = place ∧ wrongInner inner violation)
      violations := by
  obtain ⟨placed, rfl, distinct, isPlaced⟩ := reports
  refine ⟨placed.map (Prod.map label id), ?_, ?_, ?_⟩
  · rw [List.map_map]
    rfl
  · have labels :
        (placed.map (Prod.map label id)).map Prod.fst =
          (placed.map Prod.fst).map label := by
      rw [List.map_map, List.map_map]
      rfl
    rw [labels]
    exact distinct.map injective
  · intro place violation
    simp only [List.mem_map, Prod.exists, Prod.map_apply, id_eq,
      Prod.mk.injEq, isPlaced]
    constructor
    · rintro ⟨inner, _, isWrong, rfl, rfl⟩
      exact ⟨inner, rfl, isWrong⟩
    · rintro ⟨inner, rfl, isWrong⟩
      exact ⟨inner, violation, isWrong, rfl, rfl⟩

theorem single (violation : Violation) :
    ReportsOnce (fun (_ : Unit) given => given = violation) [violation] := by
  refine ⟨[((), violation)], rfl, List.nodup_singleton (), ?_⟩
  intro place given
  simp only [List.mem_singleton, Prod.mk.injEq, true_and]

/-- One violation under a condition. -/
theorem one
    {condition : Prop} {violation : Violation}
    (told : condition → violations = [violation])
    (silent : ¬condition → violations = []) :
    ReportsOnce (fun (_ : Unit) given => condition ∧ given = violation)
      violations := by
  by_cases holds : condition
  · rw [told holds]
    exact (single violation).congr fun _ _ => and_iff_right holds
  · rw [silent holds]
    exact nil fun _ _ isWrong => holds isWrong.1

/-! A report on several kinds of places is put together kind by kind: each place
has the rank of its kind. -/

section Rank

variable {rank : Place → Nat} {limit : Nat}

theorem first
    (reports :
      ReportsOnce
        (fun place violation => rank place = 0 ∧ wrong place violation)
        violations) :
    ReportsOnce
      (fun place violation => rank place < 1 ∧ wrong place violation)
      violations :=
  reports.congr fun place violation => by rw [Nat.lt_one_iff]

theorem next
    (reports :
      ReportsOnce
        (fun place violation => rank place < limit ∧ wrong place violation)
        violations)
    (others :
      ReportsOnce
        (fun place violation => rank place = limit ∧ wrong place violation)
        more) :
    ReportsOnce
      (fun place violation => rank place < limit + 1 ∧ wrong place violation)
      (violations ++ more) := by
  have both := reports.append others fun place _ _ before here =>
    Nat.ne_of_lt before.1 here.1
  refine both.congr fun place violation => ?_
  rw [Nat.lt_succ_iff_lt_or_eq, or_and_right]

/-- The places of a rank are given by something else. -/
theorem ofRank
    {Inner : Type} (label : Inner → Place)
    (injective : Function.Injective label)
    (isRank : ∀ place, rank place = limit ↔ ∃ inner, label inner = place)
    (reports :
      ReportsOnce (fun inner violation => wrong (label inner) violation)
        violations) :
    ReportsOnce
      (fun place violation => rank place = limit ∧ wrong place violation)
      violations := by
  refine (reports.relabel injective).congr fun place violation => ?_
  rw [isRank]
  constructor
  · rintro ⟨⟨inner, rfl⟩, isWrong⟩
    exact ⟨inner, rfl, isWrong⟩
  · rintro ⟨inner, rfl, isWrong⟩
    exact ⟨⟨inner, rfl⟩, isWrong⟩

/-- There is one place of a rank. -/
theorem ofOnly
    (only : Place) (isOnly : ∀ place, rank place = limit ↔ only = place)
    (reports :
      ReportsOnce (fun (_ : Unit) violation => wrong only violation)
        violations) :
    ReportsOnce
      (fun place violation => rank place = limit ∧ wrong place violation)
      violations := by
  refine ofRank (fun _ => only) (fun _ _ _ => rfl) (fun place => ?_) reports
  rw [isOnly]
  exact ⟨fun same => ⟨(), same⟩, fun ⟨_, same⟩ => same⟩

end Rank

/-! ## Elements in a row -/

/-- The violations of elements in a row, each told with its index. -/
def inOrder {Element : Type} (report : Nat → Element → List Violation) :
    Nat → List Element → List Violation
  | _, [] => []
  | index, element :: rest =>
      report index element ++ inOrder report (index + 1) rest

/-- A report on elements in a row is made of the reports on each. -/
theorem elements
    {Element : Type} {report : Nat → Element → List Violation}
    {wrongAt : Nat → Element → Place → Violation → Prop}
    (each :
      ∀ index element,
        ReportsOnce (wrongAt index element) (report index element))
    (start : Nat) (row : List Element) :
    ReportsOnce
      (fun (place : Nat × Place) violation =>
        ∃ offset element, place.1 = start + offset ∧
          row[offset]? = some element ∧
            wrongAt place.1 element place.2 violation)
      (inOrder report start row) := by
  -- The start is general, as the elements behind the first are counted on.
  induction row generalizing start with
  | nil =>
      refine nil ?_
      rintro place violation ⟨offset, element, -, isElement, -⟩
      cases isElement
  | cons head rest inductionHypothesis =>
      have ofHead :=
        (each start head).relabel (Prod.mk_right_injective start)
      refine (ofHead.append (inductionHypothesis (start + 1)) ?_).congr ?_
      · rintro _ _ _ ⟨inner, rfl, -⟩ ⟨offset, element, isIndex, -⟩
        dsimp only at isIndex
        omega
      · rintro ⟨index, inner⟩ violation
        constructor
        · rintro ⟨offset, element, isIndex, isElement, isWrong⟩
          cases offset with
          | zero =>
              cases isElement
              cases isIndex
              exact Or.inl ⟨inner, rfl, isWrong⟩
          | succ offset =>
              refine Or.inr ⟨offset, element, ?_, isElement, isWrong⟩
              rw [isIndex, Nat.add_assoc, Nat.add_comm 1]
        · rintro (⟨_, same, isWrong⟩ | ⟨offset, element, isIndex, rest⟩)
          · cases same
            exact ⟨0, head, rfl, rfl, isWrong⟩
          · refine ⟨offset + 1, element, ?_, rest⟩
            rw [isIndex, Nat.add_assoc, Nat.add_comm 1]

theorem row
    {Element : Type} {report : Nat → Element → List Violation}
    {wrongAt : Nat → Element → Place → Violation → Prop}
    (each :
      ∀ index element,
        ReportsOnce (wrongAt index element) (report index element))
    (row : List Element) :
    ReportsOnce
      (fun (place : Nat × Place) violation =>
        ∃ element, row[place.1]? = some element ∧
          wrongAt place.1 element place.2 violation)
      (inOrder report 0 row) := by
  refine (elements each 0 row).congr fun place violation => ?_
  constructor
  · rintro ⟨element, isElement, isWrong⟩
    exact
      ⟨place.1, element, (Nat.zero_add place.1).symm, isElement, isWrong⟩
  · rintro ⟨offset, element, isIndex, isElement, isWrong⟩
    rw [Nat.zero_add] at isIndex
    exact ⟨element, isIndex ▸ isElement, isWrong⟩

end ReportsOnce

/-! ## Places of a span -/

/-- Whether an identifier is absent or empty. -/
def LacksId (given : Option Identifier) : Prop :=
  ∀ identifier, given = some identifier → identifier.bytes = []

/-- Whether a text is absent or empty. -/
def LacksText (given : Option String) : Prop :=
  ∀ text, given = some text → text = ""

theorem properId?_eq_none_iff {given : Option Identifier} :
    properId? given = none ↔ LacksId given := by
  cases given with
  | none => simp [properId?, LacksId]
  | some identifier => simp [properId?, LacksId, Identifier.isEmpty]

theorem properText?_eq_none_iff {given : Option String} :
    properText? given = none ↔ LacksText given := by
  cases given with
  | none => simp [properText?, LacksText]
  | some text => simp [properText?, LacksText]

/-- The violation of a key whose value cannot be decoded, among the attributes
of the element at a path. -/
def WrongAttribute (path : String) (map : KeyMap Json) (key : String)
    (violation : Violation) : Prop :=
  ∃ value error, map.find? key = some value ∧
    AttributeValue.decodeAt key deepestLevel value = .error error ∧
      violation =
        .invalidAttribute (path ++ ".attributes." ++ error.path)
          (.attribute error.fault)

/-- The places of an event. -/
inductive EventPlace where
  | name
  | attribute (key : String)

/-- The places of a link. -/
inductive LinkPlace where
  | traceId
  | spanId
  | attribute (key : String)

/-- The places of a span in a message. -/
inductive SpanPlace where
  | traceId
  | spanId
  | name
  | startTime
  | endTime
  | attribute (key : String)
  /-- A number that is not finite, by its position among these. -/
  | notFinite (index : Nat)
  | event (index : Nat) (place : EventPlace)
  | link (index : Nat) (place : LinkPlace)
  /-- The order of the times. -/
  | timing

/-- What is wrong at a place of the event at a path. -/
def EventPlace.Wrong (path : String) (event : Wire.Event) :
    EventPlace → Violation → Prop
  | .name, violation =>
      LacksText event.name ∧ violation = .missingField (path ++ ".name")
  | .attribute key, violation =>
      WrongAttribute path event.attributes key violation

/-- What is wrong at a place of the link at a path. -/
def LinkPlace.Wrong (path : String) (link : Wire.Link) :
    LinkPlace → Violation → Prop
  | .traceId, violation =>
      LacksId link.traceId ∧ violation = .missingField (path ++ ".trace_id")
  | .spanId, violation =>
      LacksId link.spanId ∧ violation = .missingField (path ++ ".span_id")
  | .attribute key, violation =>
      WrongAttribute path link.attributes key violation

/-- The span of a message as it is named, where an absent name or identifier
counts as empty. -/
def givenLabel (message : Wire.Span) : String :=
  message.name.getD "" ++ " (" ++ (message.spanId.getD ⟨[]⟩).toHex ++ ")"

/-- What is wrong at a place of the span at a path. -/
def SpanPlace.Wrong (path : String) (message : Wire.Span) :
    SpanPlace → Violation → Prop
  | .traceId, violation =>
      LacksId message.traceId ∧
        violation = .missingField (path ++ ".trace_id")
  | .spanId, violation =>
      LacksId message.spanId ∧ violation = .missingField (path ++ ".span_id")
  | .name, violation =>
      LacksText message.name ∧ violation = .missingField (path ++ ".name")
  | .startTime, violation =>
      message.startTime = none ∧
        violation = .missingField (path ++ ".start_time_unix_nano")
  | .endTime, violation =>
      message.endTime = none ∧
        violation = .missingField (path ++ ".end_time_unix_nano")
  | .attribute key, violation =>
      WrongAttribute path message.attributes key violation
  | .notFinite index, violation =>
      ∃ found, message.notFinite[index]? = some found ∧
        violation = notFiniteViolation path found
  | .event index place, violation =>
      ∃ event, message.events[index]? = some event ∧
        place.Wrong (AttributeValue.itemPath (path ++ ".events") index) event
          violation
  | .link index place, violation =>
      ∃ link, message.links[index]? = some link ∧
        place.Wrong (AttributeValue.itemPath (path ++ ".links") index) link
          violation
  | .timing, violation =>
      ∃ startTime endTime, message.startTime = some startTime ∧
        message.endTime = some endTime ∧ endTime < startTime ∧
          violation = .invalidTiming (givenLabel message) startTime endTime

/-- Whether a span in a message has its identifiers and its name. -/
def Identified (message : Wire.Span) : Prop :=
  ¬LacksId message.traceId ∧ ¬LacksId message.spanId ∧
    ¬LacksText message.name

/-! ## Reports on elements -/

theorem reportsOnce_missing
    {Value : Type} {value : Option Value} {field : String} {lacks : Prop}
    (isNone : value = none ↔ lacks) :
    ReportsOnce
      (fun (_ : Unit) violation => lacks ∧ violation = .missingField field)
      (missingUnless value field) := by
  apply ReportsOnce.one
  · intro holds
    rw [isNone.mpr holds]
    rfl
  · intro fails
    cases value with
    | none => exact absurd (isNone.mp rfl) fails
    | some given => rfl

/-- The violation of an entry that cannot be decoded, with its key. -/
def refusal? (path : String) (entry : String × Json) :
    Option (String × Violation) :=
  match AttributeValue.decodeAt entry.1 deepestLevel entry.2 with
  | .ok _ => none
  | .error error =>
      some
        (entry.1,
          .invalidAttribute (path ++ ".attributes." ++ error.path)
            (.attribute error.fault))

theorem attributeViolations_eq (path : String) (map : KeyMap Json) :
    attributeViolations path map =
      (map.entries.filterMap (refusal? path)).map Prod.snd := by
  have ofList : ∀ entries : List (String × Json),
      (Attributes.decodeList entries).2.map (fun error =>
        Violation.invalidAttribute (path ++ ".attributes." ++ error.path)
          (.attribute error.fault)) =
        (entries.filterMap (refusal? path)).map Prod.snd := by
    intro entries
    induction entries with
    | nil => rfl
    | cons entry rest inductionHypothesis =>
        obtain ⟨key, value⟩ := entry
        cases decoded : AttributeValue.decodeAt key deepestLevel value with
        | error error =>
            simp only [Attributes.decodeList, decoded, List.map_cons,
              inductionHypothesis, List.filterMap_cons, refusal?]
        | ok result =>
            simp only [Attributes.decodeList, decoded, inductionHypothesis,
              List.filterMap_cons, refusal?]
  rw [← ofList]
  unfold attributeViolations Attributes.decode
  cases Attributes.decodeList map.entries with
  | mk values errors => cases errors <;> rfl

theorem refusal?_eq_some_iff
    {path : String} {entry : String × Json} {key : String}
    {violation : Violation} :
    refusal? path entry = some (key, violation) ↔
      key = entry.1 ∧
        ∃ error,
          AttributeValue.decodeAt key deepestLevel entry.2 = .error error ∧
            violation =
              .invalidAttribute (path ++ ".attributes." ++ error.path)
                (.attribute error.fault) := by
  unfold refusal?
  constructor
  · intro isWrong
    split at isWrong
    · cases isWrong
    · rename_i error refused
      cases isWrong
      exact ⟨rfl, error, refused, rfl⟩
  · rintro ⟨rfl, error, refused, rfl⟩
    simp only [refused]

theorem reportsOnce_attributes (path : String) (map : KeyMap Json) :
    ReportsOnce (WrongAttribute path map) (attributeViolations path map) := by
  rw [attributeViolations_eq]
  refine ⟨_, rfl, ?_, fun key violation => ?_⟩
  · refine List.pairwise_map.mpr (List.pairwise_filterMap.mpr ?_)
    refine map.ascending.imp ?_
    rintro earlier later less ⟨key, _⟩ isFirst ⟨_, _⟩ isSecond rfl
    obtain ⟨rfl, -⟩ := refusal?_eq_some_iff.mp isFirst
    obtain ⟨same, -⟩ := refusal?_eq_some_iff.mp isSecond
    dsimp only at same
    rw [same] at less
    exact String.lt_irrefl _ less
  · rw [List.mem_filterMap]
    constructor
    · rintro ⟨entry, member, isWrong⟩
      obtain ⟨rfl, error, refused, isViolation⟩ :=
        refusal?_eq_some_iff.mp isWrong
      exact
        ⟨entry.2, error, KeyMap.mem_entries_iff.mp member, refused,
          isViolation⟩
    · rintro ⟨value, error, found, refused, isViolation⟩
      exact
        ⟨(key, value), KeyMap.mem_entries_iff.mpr found,
          refusal?_eq_some_iff.mpr ⟨rfl, error, refused, isViolation⟩⟩

/-! ## Reports on events and links -/

/-- The kinds of places of an event in the order of its report. -/
def EventPlace.rank : EventPlace → Nat
  | .name => 0
  | .attribute _ => 1

theorem reportsOnce_event (path : String) (event : Wire.Event) :
    ReportsOnce (EventPlace.Wrong path event) (eventViolations path event) := by
  have ofName :
      ReportsOnce
        (fun (place : EventPlace) violation =>
          place.rank = 0 ∧ place.Wrong path event violation)
        (missingUnless (properText? event.name) (path ++ ".name")) :=
    .ofOnly .name (by rintro (_ | _) <;> simp [EventPlace.rank])
      (reportsOnce_missing properText?_eq_none_iff)
  have ofAttributes :
      ReportsOnce
        (fun (place : EventPlace) violation =>
          place.rank = 1 ∧ place.Wrong path event violation)
        (attributeViolations path event.attributes) :=
    .ofRank .attribute (fun _ _ same => EventPlace.attribute.inj same)
      (by rintro (_ | _) <;> simp [EventPlace.rank])
      (reportsOnce_attributes path event.attributes)
  refine (ofName.first.next ofAttributes).congr fun place violation => ?_
  have isKind : place.rank < 2 := by cases place <;> simp [EventPlace.rank]
  exact (and_iff_right isKind).symm

/-- The kinds of places of a link in the order of its report. -/
def LinkPlace.rank : LinkPlace → Nat
  | .traceId => 0
  | .spanId => 1
  | .attribute _ => 2

theorem reportsOnce_link (path : String) (link : Wire.Link) :
    ReportsOnce (LinkPlace.Wrong path link) (linkViolations path link) := by
  have ofTraceId :
      ReportsOnce
        (fun (place : LinkPlace) violation =>
          place.rank = 0 ∧ place.Wrong path link violation)
        (missingUnless (properId? link.traceId) (path ++ ".trace_id")) :=
    .ofOnly .traceId (by rintro (_ | _ | _) <;> simp [LinkPlace.rank])
      (reportsOnce_missing properId?_eq_none_iff)
  have ofSpanId :
      ReportsOnce
        (fun (place : LinkPlace) violation =>
          place.rank = 1 ∧ place.Wrong path link violation)
        (missingUnless (properId? link.spanId) (path ++ ".span_id")) :=
    .ofOnly .spanId (by rintro (_ | _ | _) <;> simp [LinkPlace.rank])
      (reportsOnce_missing properId?_eq_none_iff)
  have ofAttributes :
      ReportsOnce
        (fun (place : LinkPlace) violation =>
          place.rank = 2 ∧ place.Wrong path link violation)
        (attributeViolations path link.attributes) :=
    .ofRank .attribute (fun _ _ same => LinkPlace.attribute.inj same)
      (by rintro (_ | _ | _) <;> simp [LinkPlace.rank])
      (reportsOnce_attributes path link.attributes)
  refine ((ofTraceId.first.next ofSpanId).next ofAttributes).congr
    fun place violation => ?_
  have isKind : place.rank < 3 := by cases place <;> simp [LinkPlace.rank]
  exact (and_iff_right isKind).symm

theorem eventListViolations_eq
    (path : String) (index : Nat) (events : List Wire.Event) :
    eventListViolations path index events =
      ReportsOnce.inOrder
        (fun position event =>
          eventViolations (AttributeValue.itemPath (path ++ ".events") position)
            event)
        index events := by
  induction events generalizing index with
  | nil => rfl
  | cons event rest inductionHypothesis =>
      rw [eventListViolations, inductionHypothesis, ReportsOnce.inOrder]

theorem linkListViolations_eq
    (path : String) (index : Nat) (links : List Wire.Link) :
    linkListViolations path index links =
      ReportsOnce.inOrder
        (fun position link =>
          linkViolations (AttributeValue.itemPath (path ++ ".links") position)
            link)
        index links := by
  induction links generalizing index with
  | nil => rfl
  | cons link rest inductionHypothesis =>
      rw [linkListViolations, inductionHypothesis, ReportsOnce.inOrder]

theorem map_notFiniteViolation_eq
    (path : String) (index : Nat) (found : List Wire.NotFinite) :
    found.map (notFiniteViolation path) =
      ReportsOnce.inOrder (fun _ number => [notFiniteViolation path number])
        index found := by
  induction found generalizing index with
  | nil => rfl
  | cons number rest inductionHypothesis =>
      rw [List.map_cons, inductionHypothesis (index + 1), ReportsOnce.inOrder,
        List.singleton_append]

/-! ## Reports on spans -/

/-- The kinds of places of a span in the order of its report. -/
def SpanPlace.rank : SpanPlace → Nat
  | .traceId => 0
  | .spanId => 1
  | .name => 2
  | .startTime => 3
  | .endTime => 4
  | .attribute _ => 5
  | .notFinite _ => 6
  | .event _ _ => 7
  | .link _ _ => 8
  | .timing => 9

/-- A part that is required is the only place of its rank. -/
theorem SpanPlace.rank_eq_iff
    {place other : SpanPlace} (required : place.rank < 5) :
    other.rank = place.rank ↔ place = other := by
  cases place <;> cases other <;> simp_all [SpanPlace.rank]

section Span

variable (path : String) (message : Wire.Span)

/-- Whether violations are those of the places of a kind. -/
abbrev ReportsKind (kind : Nat) (violations : List Violation) : Prop :=
  ReportsOnce
    (fun (place : SpanPlace) violation =>
      place.rank = kind ∧ place.Wrong path message violation)
    violations

/-- A part that may be lacking is the only place of its kind. -/
theorem reportsKind_missing
    {Value : Type} {value : Option Value} {field : String} {lacks : Prop}
    (place : SpanPlace) (required : place.rank < 5)
    (isWrong :
      ∀ violation, place.Wrong path message violation ↔
        lacks ∧ violation = .missingField field)
    (isNone : value = none ↔ lacks) :
    ReportsKind path message place.rank (missingUnless value field) := by
  refine .ofOnly place (fun _ => SpanPlace.rank_eq_iff required) ?_
  exact (reportsOnce_missing isNone).congr fun _ violation =>
    isWrong violation

theorem reportsOnce_fields :
    ReportsOnce
      (fun (place : SpanPlace) violation =>
        place.rank < 9 ∧ place.Wrong path message violation)
      (fieldViolations path message) := by
  have ofTraceId :
      ReportsKind path message 0
        (missingUnless (properId? message.traceId) (path ++ ".trace_id")) :=
    reportsKind_missing path message .traceId (by decide) (fun _ => Iff.rfl)
      properId?_eq_none_iff
  have ofSpanId :
      ReportsKind path message 1
        (missingUnless (properId? message.spanId) (path ++ ".span_id")) :=
    reportsKind_missing path message .spanId (by decide) (fun _ => Iff.rfl)
      properId?_eq_none_iff
  have ofName :
      ReportsKind path message 2
        (missingUnless (properText? message.name) (path ++ ".name")) :=
    reportsKind_missing path message .name (by decide) (fun _ => Iff.rfl)
      properText?_eq_none_iff
  have ofStart :
      ReportsKind path message 3
        (missingUnless message.startTime (path ++ ".start_time_unix_nano")) :=
    reportsKind_missing path message .startTime (by decide) (fun _ => Iff.rfl)
      Iff.rfl
  have ofEnd :
      ReportsKind path message 4
        (missingUnless message.endTime (path ++ ".end_time_unix_nano")) :=
    reportsKind_missing path message .endTime (by decide) (fun _ => Iff.rfl)
      Iff.rfl
  have ofAttributes :
      ReportsKind path message 5
        (attributeViolations path message.attributes) :=
    .ofRank .attribute (fun _ _ same => SpanPlace.attribute.inj same)
      (by intro other; cases other <;> simp [SpanPlace.rank])
      (reportsOnce_attributes path message.attributes)
  have ofNotFinite :
      ReportsKind path message 6
        (message.notFinite.map (notFiniteViolation path)) := by
    rw [map_notFiniteViolation_eq path 0]
    refine .ofRank (fun place : Nat × Unit => .notFinite place.1) ?_ ?_ ?_
    · exact fun _ _ same =>
        Prod.ext (SpanPlace.notFinite.inj same) rfl
    · intro other
      cases other <;> simp [SpanPlace.rank]
    · exact
        .row (fun _ found => .single (notFiniteViolation path found))
          message.notFinite
  have ofEvents :
      ReportsKind path message 7
        (eventListViolations path 0 message.events) := by
    rw [eventListViolations_eq]
    refine .ofRank (fun place : Nat × EventPlace => .event place.1 place.2)
      ?_ ?_ ?_
    · exact fun _ _ same =>
        Prod.ext (SpanPlace.event.inj same).1 (SpanPlace.event.inj same).2
    · intro other
      cases other <;> simp [SpanPlace.rank]
    · exact .row (fun _ event => reportsOnce_event _ event) message.events
  have ofLinks :
      ReportsKind path message 8
        (linkListViolations path 0 message.links) := by
    rw [linkListViolations_eq]
    refine .ofRank (fun place : Nat × LinkPlace => .link place.1 place.2)
      ?_ ?_ ?_
    · exact fun _ _ same =>
        Prod.ext (SpanPlace.link.inj same).1 (SpanPlace.link.inj same).2
    · intro other
      cases other <;> simp [SpanPlace.rank]
    · exact .row (fun _ link => reportsOnce_link _ link) message.links
  exact
    (((((((ofTraceId.first.next ofSpanId).next ofName).next ofStart).next
      ofEnd).next ofAttributes).next ofNotFinite).next ofEvents).next ofLinks

/-- A span of a message has its identifiers and its name, so that nothing but
the order of its times can be wrong with it. -/
theorem spanViolations_of_span?
    {span : Span} (isSpan : span? message = some span) :
    spanViolations span =
      if span.endTime < span.startTime then
        [.invalidTiming span.label span.startTime span.endTime]
      else [] := by
  obtain ⟨isTraceId, isSpanId, isName, -⟩ := required_of_span? isSpan
  have noTraceId := filled_of_properId? isTraceId
  have noSpanId := filled_of_properId? isSpanId
  have noName := filled_of_properText? isName
  simp only [spanViolations, noTraceId, noSpanId, noName, Bool.false_eq_true,
    if_false, List.nil_append]

theorem reportsKind_timing
    {span : Span} (isSpan : span? message = some span) :
    ReportsKind path message 9 (spanViolations span) := by
  obtain ⟨-, isSpanId, isName, isStart, isEnd⟩ := required_of_span? isSpan
  have isLabel : givenLabel message = span.label := by
    rw [givenLabel, given_of_properId? isSpanId, given_of_properText? isName]
    rfl
  rw [spanViolations_of_span? message isSpan]
  refine .ofOnly .timing
    (by intro other; cases other <;> simp [SpanPlace.rank]) ?_
  have told :
      ReportsOnce
        (fun (_ : Unit) given =>
          span.endTime < span.startTime ∧
            given = .invalidTiming span.label span.startTime span.endTime)
        (if span.endTime < span.startTime then
          [.invalidTiming span.label span.startTime span.endTime]
        else []) :=
    .one (fun before => if_pos before) (fun inOrder => if_neg inOrder)
  refine told.congr fun _ violation => ?_
  constructor
  · rintro ⟨startTime, endTime, givenStart, givenEnd, before, rfl⟩
    rw [isStart] at givenStart
    rw [isEnd] at givenEnd
    cases givenStart
    cases givenEnd
    exact ⟨before, by rw [isLabel]⟩
  · rintro ⟨before, rfl⟩
    exact
      ⟨span.startTime, span.endTime, isStart, isEnd, before, by rw [isLabel]⟩

end Span

/-- A message that has a span has its identifiers and its name. -/
theorem identified_of_span?
    {message : Wire.Span} {span : Span}
    (isSpan : span? message = some span) : Identified message := by
  obtain ⟨isTraceId, isSpanId, isName, -⟩ := required_of_span? isSpan
  unfold Identified
  rw [← properId?_eq_none_iff, ← properId?_eq_none_iff,
    ← properText?_eq_none_iff, isTraceId, isSpanId, isName]
  exact ⟨nofun, nofun, nofun⟩

/-- A message with its identifiers, its name and both times has a span. -/
theorem span?_of_identified
    {message : Wire.Span} {startTime endTime : UInt64}
    (isStart : message.startTime = some startTime)
    (isEnd : message.endTime = some endTime) (identified : Identified message) :
    ∃ span, span? message = some span := by
  unfold Identified at identified
  rw [← properId?_eq_none_iff, ← properId?_eq_none_iff,
    ← properText?_eq_none_iff] at identified
  obtain ⟨hasTraceId, hasSpanId, hasName⟩ := identified
  obtain ⟨traceId, isTraceId⟩ := Option.ne_none_iff_exists'.mp hasTraceId
  obtain ⟨spanId, isSpanId⟩ := Option.ne_none_iff_exists'.mp hasSpanId
  obtain ⟨name, isName⟩ := Option.ne_none_iff_exists'.mp hasName
  simp only [span?, isTraceId, isSpanId, isName, isStart, isEnd]
  exact ⟨_, rfl⟩

theorem SpanPlace.rank_lt_nine_iff {place : SpanPlace} :
    place.rank < 9 ↔ place ≠ .timing := by
  cases place <;> simp [SpanPlace.rank]

/-- What is reported of a message without a span: all but the order of the
times. -/
theorem reported_of_no_span
    {path : String} {message : Wire.Span} (noSpan : span? message = none)
    (place : SpanPlace) (violation : Violation) :
    (place.Wrong path message violation ∧
        (place = .timing → Identified message)) ↔
      place.rank < 9 ∧ place.Wrong path message violation := by
  rw [SpanPlace.rank_lt_nine_iff]
  constructor
  · rintro ⟨isWrong, identified⟩
    refine ⟨?_, isWrong⟩
    rintro rfl
    obtain ⟨startTime, endTime, isStart, isEnd, -⟩ := isWrong
    obtain ⟨span, isSpan⟩ :=
      span?_of_identified isStart isEnd (identified rfl)
    rw [noSpan] at isSpan
    cases isSpan
  · rintro ⟨notTiming, isWrong⟩
    exact ⟨isWrong, fun isTiming => absurd isTiming notTiming⟩

/-- What is reported of a message with a span: everything. -/
theorem reported_of_span
    {path : String} {message : Wire.Span} {span : Span}
    (isSpan : span? message = some span) (place : SpanPlace)
    (violation : Violation) :
    (place.Wrong path message violation ∧
        (place = .timing → Identified message)) ↔
      place.rank < 10 ∧ place.Wrong path message violation := by
  have isKind : place.rank < 10 := by cases place <;> simp [SpanPlace.rank]
  rw [and_iff_right isKind, and_iff_left fun _ => identified_of_span? isSpan]

/-- If the check of the span at a path accepts it, nothing is wrong with it.
Otherwise it reports one violation for each place at which something is wrong
and nothing else: for each identifier, name or time that is lacking, for each
attribute that cannot be decoded, for each number that is not finite, for each
such lack and attribute of an event or a link, all under their own paths; and
for times in the wrong order, but these only if the span has its identifiers and
its name. -/
theorem checkSpan_reports (path : String) (message : Wire.Span) :
    match checkSpan path message with
    | .ok _ => ∀ place violation, ¬SpanPlace.Wrong path message place violation
    | .error violations =>
        violations ≠ [] ∧
          ReportsOnce
            (fun (place : SpanPlace) violation =>
              place.Wrong path message violation ∧
                (place = .timing → Identified message))
            violations := by
  have fields := reportsOnce_fields path message
  cases isSpan : span? message with
  | none =>
      -- The times are compared only once there is a span, also if both are
      -- given.
      have refused :
          checkSpan path message = .error (fieldViolations path message) := by
        simp only [checkSpan, isSpan]
      rw [refused]
      exact
        ⟨violations_of_checkSpan refused,
          fields.congr (reported_of_no_span isSpan)⟩
  | some span =>
      have all :=
        (fields.next (reportsKind_timing path message isSpan)).congr
          (reported_of_span isSpan)
      simp only [checkSpan, isSpan]
      cases listed : fieldViolations path message ++ spanViolations span with
      | nil =>
          rw [listed] at all
          exact fun place violation isWrong =>
            all.nowhere_of_nil place violation
              ⟨isWrong, fun _ => identified_of_span? isSpan⟩
      | cons first rest =>
          rw [listed] at all
          exact ⟨List.cons_ne_nil first rest, all⟩

/-- The order of the times is not told of a span that lacks its identifier. -/
theorem timing_unreported :
    let message : Wire.Span :=
      { spanId := some ⟨[2]⟩
        name := some "root"
        startTime := some 2
        endTime := some 1 }
    checkSpan "data.spans[0]" message =
        .error [.missingField "data.spans[0].trace_id"] ∧
      SpanPlace.Wrong "data.spans[0]" message .timing
        (.invalidTiming "root (02)" 2 1) := by
  refine ⟨by rfl, 2, 1, rfl, rfl, by decide, ?_⟩
  rfl

end TraceArchive.Check
