import TraceArchive.Check.Span
import TraceArchive.Proofs.Wire.Search

/-!
# Numbers that are not finite

A number that JSON cannot hold is never lost on the way out of the binary form.
A span has `null` in its place and is refused with the path to it; an assessment
is refused at once with the path to the first one. The main statement is
`notFinite_named`.
-/

namespace TraceArchive

open Protobuf (Value)

/-! ## What a conversion leaves as it is -/

namespace Protobuf

namespace Value

mutual

/-- A value with `null` for each number that is not finite; a value of no kind is
`null` as well. -/
def cleared : Value → Value
  | .absent => .null
  | .number value => if value.isFinite then .number value else .null
  | .struct entries => .struct (clearedEntries entries)
  | .list items => .list (clearedItems items)
  | other => other

def clearedItems : List Value → List Value
  | [] => []
  | item :: rest => cleared item :: clearedItems rest

def clearedEntries : List (String × Value) → List (String × Value)
  | [] => []
  | (key, value) :: rest => (key, cleared value) :: clearedEntries rest

end

mutual

theorem ofJson_toJson :
    ∀ (value : Value) (path : String),
      ofJson (value.toJson path).1 = value.cleared
  | .absent, _ => rfl
  | .null, _ => rfl
  | .number value, path => by
      unfold toJson cleared
      split
      · rfl
      · rfl
  | .string _, _ => rfl
  | .boolean _, _ => rfl
  | .struct entries, path => by
      simp only [toJson, ofJson, cleared,
        ofJsonEntries_toJsonEntries entries path]
  | .list items, path => by
      simp only [toJson, ofJson, cleared, ofJsonItems_toJsonItems items path 0]

theorem ofJsonItems_toJsonItems :
    ∀ (items : List Value) (path : String) (index : Nat),
      ofJsonItems (toJsonItems path index items).1 = clearedItems items
  | [], _, _ => rfl
  | item :: rest, path, index => by
      simp only [toJsonItems, ofJsonItems, clearedItems, ofJson_toJson item,
        ofJsonItems_toJsonItems rest path (index + 1)]

theorem ofJsonEntries_toJsonEntries :
    ∀ (entries : List (String × Value)) (path : String),
      ofJsonEntries (toJsonEntries path entries).1 = clearedEntries entries
  | [], _ => rfl
  | (key, value) :: rest, path => by
      simp only [toJsonEntries, ofJsonEntries, clearedEntries,
        ofJson_toJson value, ofJsonEntries_toJsonEntries rest path]

end

end Value

/-- A span with `null` for each number in attributes that is not finite. -/
def Span.cleared (span : Span) : Span :=
  { span with
    attributes := span.attributes.mapValues Value.cleared
    events :=
      span.events.map fun event =>
        { event with attributes := event.attributes.mapValues Value.cleared }
    links :=
      span.links.map fun link =>
        { link with attributes := link.attributes.mapValues Value.cleared } }

/-- Whether the numbers for the kind and the status of a span stand for words. -/
structure Span.Worded (span : Span) : Prop where
  kind :
    ∀ number, span.kind = some number →
      ∃ word : SpanKind, Vocabulary.ofNumber? number = some word
  code :
    ∀ status, span.status = some status →
      ∀ number, status.code = some number →
        ∃ word : StatusCode, Vocabulary.ofNumber? number = some word

end Protobuf

namespace Wire

theorem ofJson_attributeList
    (lead : String) (entries : List (String × Value)) :
    (attributeList lead entries).1.map
        (fun entry => (entry.1, Value.ofJson entry.2)) =
      entries.map fun entry => (entry.1, entry.2.cleared) := by
  induction entries with
  | nil => rfl
  | cons entry rest inductionHypothesis =>
      simp only [attributeList, List.map_cons, inductionHypothesis,
        Value.ofJson_toJson]

theorem attributesToBinary_ofBinary
    (lead : String) (attributes : KeyMap Value) :
    attributesToBinary (attributesOfBinary lead attributes).1 =
      attributes.mapValues Value.cleared := by
  have areEntries := ofJson_attributeList lead attributes.entries
  have sameKeys :
      (attributeList lead attributes.entries).1.map Prod.fst =
        attributes.entries.map Prod.fst := by
    have ofBoth := congrArg (List.map Prod.fst) areEntries
    simpa [List.map_map, Function.comp_def] using ofBoth
  apply KeyMap.ext
  simp only [attributesToBinary, attributesOfBinary, KeyMap.mapValues,
    KeyMap.entries_ofList (attributes.ascending.of_keys sameKeys)]
  exact areEntries

theorem map_bytes_mk (bytes : Option (List UInt8)) :
    (bytes.map Identifier.mk).map Identifier.bytes = bytes := by
  cases bytes with
  | none => rfl
  | some bytes => rfl

theorem Event.toBinary_ofBinaryList
    (index : Nat) (events : List Protobuf.Event) :
    (ofBinaryList index events).1.map toBinary =
      events.map fun event =>
        { event with attributes := event.attributes.mapValues Value.cleared } := by
  induction events generalizing index with
  | nil => rfl
  | cons event rest inductionHypothesis =>
      simp only [ofBinaryList, ofBinary, List.map_cons, inductionHypothesis,
        toBinary, attributesToBinary_ofBinary]

theorem Link.toBinary_ofBinaryList
    (index : Nat) (links : List Protobuf.Link) :
    (ofBinaryList index links).1.map toBinary =
      links.map fun link =>
        { link with attributes := link.attributes.mapValues Value.cleared } := by
  induction links generalizing index with
  | nil => rfl
  | cons link rest inductionHypothesis =>
      simp only [ofBinaryList, ofBinary, List.map_cons, inductionHypothesis,
        toBinary, attributesToBinary_ofBinary, map_bytes_mk]

/-! ### Words -/

section Words

variable {Word : Type} [Vocabulary Word] {given : Option Int}

theorem exists_wordOf?_iff :
    (∃ word : Option Word, wordOf? given = .ok word) ↔
      ∀ number, given = some number →
        ∃ word : Word, Vocabulary.ofNumber? number = some word := by
  cases given with
  | none => exact ⟨fun _ => nofun, fun _ => ⟨none, rfl⟩⟩
  | some number =>
      cases isWord : (Vocabulary.ofNumber? number : Option Word) with
      | none => simp [wordOf?, isWord]
      | some word => simp [wordOf?, isWord]

theorem number_of_wordOf?
    (numbered :
      ∀ (number : Int) (word : Word),
        Vocabulary.ofNumber? number = some word →
          Vocabulary.number word = number)
    {word : Option Word} (isWord : wordOf? given = .ok word) :
    word.map Vocabulary.number = given := by
  unfold wordOf? at isWord
  split at isWord
  · cases isWord
    rfl
  · rename_i number
    split at isWord
    · rename_i found isFound
      cases isWord
      exact congrArg some (numbered number found isFound)
    · cases isWord

end Words

namespace Status

theorem exists_ofBinary?_iff {status : Option Protobuf.Status} :
    (∃ message, ofBinary? status = .ok message) ↔
      ∀ given, status = some given →
        ∀ number, given.code = some number →
          ∃ word : StatusCode, Vocabulary.ofNumber? number = some word := by
  cases status with
  | none => exact ⟨fun _ => nofun, fun _ => ⟨none, rfl⟩⟩
  | some given =>
      have isWord := @exists_wordOf?_iff StatusCode _ given.code
      simp only [Option.some.injEq, forall_eq']
      rw [← isWord, ofBinary?, ofBinary]
      cases (wordOf? given.code : Except Error (Option StatusCode)) with
      | error error => simp [Except.map]
      | ok code => simp [Except.map]

theorem toBinary_ofBinary?
    {status : Option Protobuf.Status} {message : Option Status}
    (converted : ofBinary? status = .ok message) :
    message.map toBinary = status := by
  cases status with
  | none =>
      cases converted
      rfl
  | some given =>
      obtain ⟨value, isValue, rfl⟩ := exists_of_map_eq_ok converted
      unfold ofBinary at isValue
      split at isValue
      · cases isValue
      · rename_i code isCode
        cases isValue
        have sameCode := number_of_wordOf? StatusCode.number_of_ofNumber? isCode
        simp only [Option.map_some, toBinary, sameCode]

end Status

namespace Span

variable {span : Protobuf.Span} {message : Span}

theorem exists_ofBinary_iff :
    (∃ message, ofBinary span = .ok message) ↔ span.Worded := by
  have worded :
      span.Worded ↔
        (∃ kind : Option SpanKind, wordOf? span.kind = .ok kind) ∧
          ∃ status, Status.ofBinary? span.status = .ok status := by
    rw [@exists_wordOf?_iff SpanKind, Status.exists_ofBinary?_iff]
    exact
      ⟨fun worded => ⟨worded.kind, worded.code⟩,
        fun both => ⟨both.1, both.2⟩⟩
  rw [worded]
  unfold ofBinary
  dsimp only
  cases (wordOf? span.kind : Except Error (Option SpanKind)) with
  | error error => simp
  | ok kind =>
      cases Status.ofBinary? span.status with
      | error error => simp
      | ok status => simp

theorem notFinite_of_ofBinary (converted : ofBinary span = .ok message) :
    message.notFinite =
      (attributesOfBinary "" span.attributes).2 ++
        (Event.ofBinaryList 0 span.events).2 ++
        (Link.ofBinaryList 0 span.links).2 := by
  unfold ofBinary at converted
  dsimp only at converted
  split at converted
  · cases converted
  · split at converted
    · cases converted
    · cases converted
      rfl

/-- The way back leads to the same span but for the numbers that were left
out. -/
theorem toBinary_of_ofBinary (converted : ofBinary span = .ok message) :
    message.toBinary = span.cleared := by
  unfold ofBinary at converted
  dsimp only at converted
  split at converted
  · cases converted
  · rename_i kind isKind
    split at converted
    · cases converted
    · rename_i status isStatus
      cases converted
      have sameKind := number_of_wordOf? SpanKind.number_of_ofNumber? isKind
      have sameStatus := Status.toBinary_ofBinary? isStatus
      simp only [toBinary, Protobuf.Span.cleared, map_bytes_mk, sameKind,
        sameStatus, attributesToBinary_ofBinary, Event.toBinary_ofBinaryList,
        Link.toBinary_ofBinaryList]

end Span

end Wire

/-! ## Checking what was recorded -/

namespace Check

theorem exists_violation_of_notFinite
    {message : Wire.Span} {record : Wire.NotFinite}
    (member : record ∈ message.notFinite) (path : String) :
    ∃ violations, checkSpan path message = .error violations ∧
      .invalidAttribute (path ++ "." ++ record.path)
          (.attribute (.notFinite record.value)) ∈
        violations := by
  have inFields :
      notFiniteViolation path record ∈ fieldViolations path message := by
    have inNotFinite :
        notFiniteViolation path record ∈
          message.notFinite.map (notFiniteViolation path) :=
      List.mem_map_of_mem member
    simp only [fieldViolations, List.mem_append]
    exact Or.inl (Or.inl (Or.inr inNotFinite))
  unfold checkSpan
  cases span? message with
  | none => exact ⟨_, rfl, inFields⟩
  | some checked =>
      have inAll :
          notFiniteViolation path record ∈
            fieldViolations path message ++ spanViolations checked :=
        List.mem_append_left _ inFields
      cases areAll :
          fieldViolations path message ++ spanViolations checked with
      | nil =>
          rw [areAll] at inAll
          cases inAll
      | cons first rest =>
          rw [areAll] at inAll
          exact ⟨_, by simp only [areAll], inAll⟩

end Check

/-! ## Assessments -/

namespace Wire

open AttributeValue (itemPath)
open Protobuf (Search)

theorem records_assessments (info : Protobuf.TraceInfo) :
    Search.Records info.follow
      ((info.assessments.zipIdx 0).flatMap fun entries =>
        ((Value.struct entries.1).toJson
          (itemPath "assessments" entries.2)).2) := by
  apply
    Search.records_flatMap info.assessments
      (fun index entries =>
        (Value.struct entries).follow (itemPath "assessments" index))
      fun index entries =>
        ((Value.struct entries).toJson (itemPath "assessments" index)).2
  · intro index entries _
    apply Value.records_toJson
    simp [itemPath]
  · rintro record ⟨found, _⟩
    cases found
  · intro index place
    rw [Nat.zero_add]
    rfl

theorem assessmentsOfBinary_of_found
    {index : Nat} {assessments : List (List (String × Value))}
    {first : NotFinite} {others : List NotFinite}
    (found :
      ((assessments.zipIdx index).flatMap fun entries =>
        ((Value.struct entries.1).toJson
          (itemPath "assessments" entries.2)).2) = first :: others) :
    assessmentsOfBinary index assessments =
      .error (.notFinite first.path) := by
  induction assessments generalizing index with
  | nil => cases found
  | cons entries rest inductionHypothesis =>
      simp only [List.zipIdx_cons, List.flatMap_cons, Value.toJson] at found
      simp only [assessmentsOfBinary]
      generalize
        Value.toJsonEntries (itemPath "assessments" index) entries = converted
        at found ⊢
      obtain ⟨values, here⟩ := converted
      cases here with
      | nil => simp only [inductionHypothesis found]
      | cons earliest later =>
          cases found
          rfl

-- Assessments are looked at after everything else that can be wrong.
theorem TraceInfo.ofBinary_of_assessments
    {info : Protobuf.TraceInfo} {error : Error}
    (refused : assessmentsOfBinary 0 info.assessments = .error error) :
    ofBinary info =
      match ofBinary { info with assessments := [] } with
      | .error earlier => .error earlier
      | .ok _ => .error error := by
  unfold ofBinary
  dsimp only
  rw [refused]
  cases Location.ofBinary? info.location with
  | error earlier => rfl
  | ok location =>
      cases instantOfBinary? info.requestTime with
      | error earlier => rfl
      | ok requestTime =>
          cases durationOfBinary? info.executionDuration with
          | error earlier => rfl
          | ok executionDuration =>
              cases (wordOf? info.state : Except Error (Option TraceState)) with
              | error earlier => rfl
              | ok state => rfl

/-! ## Main statement -/

/-- A span can be converted unless the number of its kind or its status stands for
no word. Then every number in its attributes that is not finite is recorded once,
in order and with the path to it; with `null` for these numbers the span stays
the same, and it is refused with each of their paths, whatever else is wrong.
Information about a trace with such a number in an assessment is refused with the
path of the first one, unless it is refused without assessments already. -/
theorem notFinite_named
    (span : Protobuf.Span) (info : Protobuf.TraceInfo) :
    (((∃ message, Span.ofBinary span = .ok message) ↔ span.Worded) ∧
      ∀ message, Span.ofBinary span = .ok message →
        Search.Records span.follow message.notFinite ∧
          message.toBinary = span.cleared ∧
            ∀ path, ∀ record ∈ message.notFinite,
              ∃ violations, Check.checkSpan path message = .error violations ∧
                .invalidAttribute (path ++ "." ++ record.path)
                    (.attribute (.notFinite record.value)) ∈
                  violations) ∧
      ((∃ place record, NotFinite.IsFound record (info.follow place)) →
        ∃ first rest, Search.Records info.follow (first :: rest) ∧
          TraceInfo.ofBinary info =
            match TraceInfo.ofBinary { info with assessments := [] } with
            | .error earlier => .error earlier
            | .ok _ => .error (.notFinite first.path)) := by
  refine ⟨⟨Span.exists_ofBinary_iff, ?_⟩, ?_⟩
  · intro message converted
    refine ⟨?_, Span.toBinary_of_ofBinary converted, ?_⟩
    · rw [Span.notFinite_of_ofBinary converted]
      exact records_span span
    · intro path record member
      exact Check.exists_violation_of_notFinite member path
  · rintro ⟨place, record, isFound⟩
    have areAll := records_assessments info
    obtain ⟨first, rest, isFirst⟩ :=
      Search.exists_cons_of_isFound areAll isFound
    rw [isFirst] at areAll
    exact
      ⟨first, rest, areAll,
        TraceInfo.ofBinary_of_assessments (assessmentsOfBinary_of_found isFirst)⟩

/-- A span without a name with numbers that are not finite in a list, in its
second event and in its link. -/
def strangeSpan : Protobuf.Span where
  kind := some 2
  attributes :=
    KeyMap.empty.insert "deep"
      (.list [.number .zero, .struct [("x", .number .notANumber)]])
  events :=
    [{}, { attributes := KeyMap.empty.insert "e" (.number (.infinity false)) }]
  links :=
    [{ attributes :=
        KeyMap.empty.insert "l" (.list [.number (.infinity true)]) }]
  status := some { code := some 2 }

/-- The second assessment has two numbers that are not finite. -/
def strangeInfo : Protobuf.TraceInfo where
  assessments :=
    [[("fine", .number .zero)],
      [("score", .list [.number (.infinity false)]),
        ("weight", .number .notANumber)]]

theorem worded_strangeSpan : strangeSpan.Worded where
  kind number isKind := by
    cases isKind
    exact ⟨.server, rfl⟩
  code status isStatus number isCode := by
    cases isStatus
    cases isCode
    exact ⟨.error, rfl⟩

theorem notFinite_named_strange :
    (∃ message, Span.ofBinary strangeSpan = .ok message ∧
      message.notFinite =
          [⟨"attributes.deep[1].x", .notANumber⟩,
            ⟨"events[1].attributes.e", .infinity false⟩,
            ⟨"links[0].attributes.l[0]", .infinity true⟩] ∧
        Search.Records strangeSpan.follow message.notFinite ∧
          message.toBinary = strangeSpan.cleared ∧
            ∀ path, ∀ record ∈ message.notFinite,
              ∃ violations, Check.checkSpan path message = .error violations ∧
                .invalidAttribute (path ++ "." ++ record.path)
                    (.attribute (.notFinite record.value)) ∈
                  violations) ∧
      TraceInfo.ofBinary strangeInfo =
          .error (.notFinite "assessments[1].score[0]") ∧
        ∃ first rest, Search.Records strangeInfo.follow (first :: rest) ∧
          first.path = "assessments[1].score[0]" := by
  obtain ⟨⟨converts, named⟩, refused⟩ := notFinite_named strangeSpan strangeInfo
  obtain ⟨message, converted⟩ := converts.mpr worded_strangeSpan
  have areRecords :
      (Span.ofBinary strangeSpan).toOption.map Span.notFinite =
        some
          [⟨"attributes.deep[1].x", .notANumber⟩,
            ⟨"events[1].attributes.e", .infinity false⟩,
            ⟨"links[0].attributes.l[0]", .infinity true⟩] := by
    decide +kernel
  rw [converted] at areRecords
  have isRefused :
      TraceInfo.ofBinary strangeInfo =
        .error (.notFinite "assessments[1].score[0]") :=
    rfl
  obtain ⟨first, rest, areAll, refusal⟩ :=
    refused ⟨[1, 0, 0], ⟨"assessments[1].score[0]", .infinity false⟩, rfl, rfl⟩
  have samePath : first.path = "assessments[1].score[0]" := by
    have sameError := refusal.symm.trans isRefused
    injection sameError with sameError
    injection sameError
  exact
    ⟨⟨message, converted, Option.some.inj areRecords, named message converted⟩,
      isRefused, first, rest, areAll, samePath⟩

/-- A number that stands for no word is told instead: nothing is recorded about
the span, and the assessment of the trace is not looked at. -/
theorem notFinite_unnamed_of_unknownNumber :
    let span : Protobuf.Span :=
      { kind := some 99
        attributes := KeyMap.empty.insert "x" (.number .notANumber) }
    let info : Protobuf.TraceInfo :=
      { state := some 99
        assessments := [[("score", .number .notANumber)]] }
    NotFinite.IsFound ⟨"attributes.x", .notANumber⟩ (span.follow [0, 0]) ∧
      (∀ message, Span.ofBinary span ≠ .ok message) ∧
        NotFinite.IsFound ⟨"assessments[0].score", .notANumber⟩
            (info.follow [0, 0]) ∧
          TraceInfo.ofBinary info = .error (.unknownNumber "trace state" 99) := by
  intro span info
  refine ⟨⟨rfl, rfl⟩, ?_, ⟨rfl, rfl⟩, rfl⟩
  intro message converted
  cases converted

end Wire

end TraceArchive
