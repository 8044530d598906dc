import TraceArchive.Check.Violation

/-!
# Checking the tree of spans

The spans of a trace share one trace identifier, differ in their own, have one
root, and lead to it by their parents. In the lenient mode a parent may be
outside the trace.
-/

namespace TraceArchive.Check

/-- How the parents of spans are checked. -/
inductive Mode where
  /-- Every parent is a span of the trace. -/
  | strict
  /-- A parent may be outside the trace. -/
  | lenient
deriving DecidableEq, Repr

/-! ## Violations of a list of spans -/

/-- The spans of another trace than that of the first span. -/
def foreignSpans (expected : Identifier) (spans : List Span) :
    List Violation :=
  (spans.filter (fun span => span.traceId ≠ expected)).map (fun span =>
    .malformedTrace (.foreignSpan span.label span.traceId expected))

/-- The identifiers that occur again, each once, in the order of their second
occurrences; `seen` and `reported` are those of the spans before. -/
def repeatedIds (seen reported : List Identifier) :
    List Identifier → List Identifier
  | [] => []
  | identifier :: rest =>
      if seen.contains identifier then
        if reported.contains identifier then repeatedIds seen reported rest
        else identifier :: repeatedIds seen (identifier :: reported) rest
      else repeatedIds (identifier :: seen) reported rest

/-- The identifiers that several spans have. -/
def duplicateSpans (spans : List Span) : List Violation :=
  (repeatedIds [] [] (spans.map Span.spanId)).map .duplicateSpan

/-- The violation of a trace that has not exactly one root. -/
def rootViolations (spans : List Span) : List Violation :=
  match spans.filter Span.isRoot with
  | [] => [.malformedTrace .noRoot]
  | [_] => []
  | roots => [.malformedTrace (.manyRoots (roots.map Span.label))]

/-- Whether an identifier is that of a span. -/
def isSpan (spans : List Span) (identifier : Identifier) : Bool :=
  (spans.map Span.spanId).contains identifier

/-- The violation of a span whose parent is no span. -/
def orphanViolation? (spans : List Span) (span : Span) : Option Violation :=
  match span.parentId with
  | none => none
  | some parent =>
      if isSpan spans parent then none
      else some (.orphanSpan span.label parent)

/-- The spans whose parents are no spans. -/
def orphanSpans (spans : List Span) : List Violation :=
  spans.filterMap (orphanViolation? spans)

/-! ## Cycles -/

/-- The parent of the first span with an identifier. -/
def parentOf (spans : List Span) (identifier : Identifier) :
    Option Identifier :=
  match spans.find? (fun span => span.spanId == identifier) with
  | none => none
  | some span => span.parentId

/-- What a walk along the parents has met. -/
structure Walk where
  /-- The identifiers on the way. -/
  visited : List Identifier
  /-- The first identifier that was met again. -/
  repeated : Option Identifier

/-- Walks along the parents until there is none, until the way meets an earlier
walk, or until it meets itself. The first argument bounds the steps. -/
def walkFrom (spans : List Span) (done : List Identifier) :
    Nat → List Identifier → Option Identifier → Walk
  | 0, visited, _ => ⟨visited, none⟩
  | _ + 1, visited, none => ⟨visited, none⟩
  | steps + 1, visited, some identifier =>
      if done.contains identifier then ⟨visited, none⟩
      else if visited.contains identifier then ⟨visited, some identifier⟩
      else
        walkFrom spans done steps (identifier :: visited)
          (parentOf spans identifier)

/-- The walk from a span. Every step but the last two meets another span. -/
def walk (spans : List Span) (done : List Identifier) (span : Span) : Walk :=
  walkFrom spans done (spans.length + 2) [] (some span.spanId)

/-- An identifier on each cycle that is met from the given spans and was not
met before. -/
def cyclesFrom (spans : List Span) (done : List Identifier) :
    List Span → List Identifier
  | [] => []
  | span :: rest =>
      let met := walk spans done span
      met.repeated.toList ++ cyclesFrom spans (met.visited ++ done) rest

/-- The cycles among the parents, one violation each. -/
def cycles (spans : List Span) : List Violation :=
  (cyclesFrom spans [] spans).map
    (fun identifier => .malformedTrace (.cycle identifier))

/-! ## The whole tree -/

/-- All that is wrong with the tree of a list of spans. -/
def treeViolations (mode : Mode) : List Span → List Violation
  | [] => []
  | first :: rest =>
      let spans := first :: rest
      foreignSpans first.traceId spans ++ duplicateSpans spans ++
        rootViolations spans ++
        (if mode = .strict then orphanSpans spans else []) ++ cycles spans

/-- Checks the tree of a list of spans; an empty list has none. -/
def checkTree (mode : Mode) (spans : List Span) :
    Except (List Violation) Unit :=
  match treeViolations mode spans with
  | [] => .ok ()
  | violations => .error violations

/-! ## Policies -/

/-- How the mode of a check follows from the state of a trace. -/
inductive Policy where
  | strict
  | lenient
  /-- Lenient while the execution is in progress, strict afterwards. -/
  | lenientInProgress
deriving DecidableEq, Repr, Inhabited

namespace Policy

/-- The mode for a trace in a state. -/
def modeFor (policy : Policy) (state : TraceState) : Mode :=
  match policy with
  | .strict => .strict
  | .lenient => .lenient
  | .lenientInProgress =>
      if state = .inProgress then .lenient else .strict

/-- The name of a policy. -/
def name : Policy → String
  | .strict => "strict"
  | .lenient => "lenient"
  | .lenientInProgress => "lenient-in-progress"

/-- The name that a text gives: without blanks around it, in lower case, and
with hyphens for underscores. -/
def plainName (text : String) : String :=
  String.ofList ((Text.lowered (Text.trimmed text)).toList.map
    (fun character => if character = '_' then '-' else character))

/-- The policy of a name, or the message about an unknown one. -/
def ofText (text : String) : Except String Policy :=
  let given := plainName text
  if given = "strict" then .ok .strict
  else if given = "lenient" then .ok .lenient
  else if given = "lenient-in-progress" then .ok .lenientInProgress
  else .error ("unknown validation mode '" ++ given ++ "'")

end Policy

end TraceArchive.Check
