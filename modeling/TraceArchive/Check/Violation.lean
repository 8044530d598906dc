import TraceArchive.Attribute.Codec
import TraceArchive.Trace.Basic

/-!
# Violations

What can be wrong with a trace. A check goes on after the first violation and
reports all of them. Each violation has a kind for machines, a subject and a
message for people.
-/

namespace TraceArchive

/-- What is wrong with the identifiers and the tree of the spans of a trace. -/
inductive TreeFault where
  /-- The given trace identifier is not hexadecimal. -/
  | notHexadecimal (given : String)
  /-- A span belongs to another trace than the first span. -/
  | foreignSpan (span : String) (traceId expected : Identifier)
  /-- A span belongs to another trace than the one the request names. -/
  | foreignToRequest (span : String) (traceId : Identifier) (key : String)
  /-- Every span has a parent. -/
  | noRoot
  /-- Several spans have no parent. -/
  | manyRoots (labels : List String)
  /-- The parents of a span lead back to it. -/
  | cycle (span : Identifier)
  /-- A part is lacking although nothing was found wrong with it. -/
  | incomplete
deriving DecidableEq, Repr

/-- What is wrong with a location. -/
inductive LocationFault where
  /-- An experiment and a table are given. -/
  | ambiguous
  /-- The name of a table has not three proper parts. -/
  | badTableName (name : String)
  /-- The declared kind is not that of the given location. -/
  | otherKind (declared actual : LocationKind)
  /-- The experiment is not in the catalog. -/
  | unknownExperiment (identifier : String)
  /-- A stored trace would move to another location. -/
  | moved (source target : TraceLocation)
deriving DecidableEq, Repr

/-- What is wrong with a value under a key. -/
inductive ValueFault where
  /-- The value has no place on the wire. -/
  | attribute (fault : AttributeFault)
  /-- The value is of a kind other than text. -/
  | notText (kind : String)
  /-- The assessment is of a kind other than an object. -/
  | notObject (kind : String)
deriving DecidableEq

/-- One thing that is wrong with a trace. -/
inductive Violation where
  /-- A field is absent or empty. -/
  | missingField (field : String)
  /-- A span ends before it starts. -/
  | invalidTiming (span : String) (startTime endTime : UInt64)
  /-- The spans are not those of one trace with one root. -/
  | malformedTrace (fault : TreeFault)
  /-- The parent of a span is not among the spans. -/
  | orphanSpan (span : String) (parent : Identifier)
  /-- Several spans have one identifier. -/
  | duplicateSpan (span : Identifier)
  /-- The location is not acceptable. -/
  | invalidLocation (fault : LocationFault)
  /-- The value at a path is not acceptable. -/
  | invalidAttribute (path : String) (fault : ValueFault)
  /-- A trace cannot go from one state to another. -/
  | invalidTransition (source target : TraceState)
deriving DecidableEq

/-- The wording of each fault of a tree. -/
def TreeFault.message : TreeFault → String
  | .notHexadecimal given =>
      "info.trace_id '" ++ given ++ "' is not a hex trace id"
  | .foreignSpan span traceId expected =>
      "span " ++ span ++ " has trace id " ++ traceId.toHex ++
        ", expected " ++ expected.toHex
  | .foreignToRequest span traceId key =>
      "span " ++ span ++ " has trace id " ++ traceId.toHex ++
        ", but info.trace_id is " ++ key
  | .noRoot => "trace has no root span"
  | .manyRoots labels =>
      "trace has " ++ toString labels.length ++ " root spans: " ++
        String.intercalate ", " labels
  | .cycle span =>
      "parent references form a cycle through span " ++ span.toHex
  | .incomplete => "incomplete message"

/-- The wording of each fault of a location. -/
def LocationFault.message : LocationFault → String
  | .ambiguous => "both mlflow_experiment and inference_table are set"
  | .badTableName name =>
      "full_table_name '" ++ name ++ "' must be catalog.schema.table"
  | .otherKind declared actual =>
      "type " ++ Vocabulary.name declared ++
        " does not match the populated " ++ Vocabulary.name actual ++
        " location"
  | .unknownExperiment identifier =>
      "experiment '" ++ identifier ++ "' does not exist"
  | .moved source target =>
      "trace location cannot change from " ++ source.describe ++ " to " ++
        target.describe

/-- The wording of each fault of a value. -/
def ValueFault.message : ValueFault → String
  | .attribute fault => fault.message
  | .notText kind => "value must be a string, got " ++ kind
  | .notObject kind => "assessment must be an object, got " ++ kind

namespace Violation

/-- The kind under which a violation is reported. -/
def kind : Violation → String
  | .missingField _ => "MISSING_FIELD"
  | .invalidTiming _ _ _ => "INVALID_TIMING"
  | .malformedTrace _ => "MALFORMED_TRACE_STRUCTURE"
  | .orphanSpan _ _ => "ORPHAN_SPAN"
  | .duplicateSpan _ => "DUPLICATE_SPAN"
  | .invalidLocation _ => "INVALID_LOCATION"
  | .invalidAttribute _ _ => "INVALID_ATTRIBUTE"
  | .invalidTransition _ _ => "INVALID_STATE_TRANSITION"

/-- The field, span or path that a violation is about. -/
def subject? : Violation → Option String
  | .missingField field => some field
  | .invalidTiming span _ _ => some span
  | .malformedTrace _ => none
  | .orphanSpan span _ => some span
  | .duplicateSpan span => some span.toHex
  | .invalidLocation _ => some "trace_location"
  | .invalidAttribute path _ => some path
  | .invalidTransition _ _ => some "state"

/-- The wording of each violation. -/
def message : Violation → String
  | .missingField field => field ++ " is required"
  | .invalidTiming span startTime endTime =>
      "span " ++ span ++ ": end time " ++ toString endTime.toNat ++
        " is before start time " ++ toString startTime.toNat
  | .malformedTrace fault => "malformed trace: " ++ fault.message
  | .orphanSpan span parent =>
      "span " ++ span ++ ": parent " ++ parent.toHex ++
        " is not part of the trace"
  | .duplicateSpan span =>
      "span id " ++ span.toHex ++ " appears more than once"
  | .invalidLocation fault => "invalid trace location: " ++ fault.message
  | .invalidAttribute path fault => path ++ ": " ++ fault.message
  | .invalidTransition source target =>
      "cannot move trace from " ++ Vocabulary.name source ++ " to " ++
        Vocabulary.name target

end Violation

end TraceArchive
