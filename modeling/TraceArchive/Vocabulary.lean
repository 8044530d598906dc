import TraceArchive.Json.Reader
import TraceArchive.Text.Blank

/-!
# Closed vocabularies

Kinds, states and codes are words of closed vocabularies. A word is written by
its short name. It is read from that name, from the name with the lead of its
vocabulary in front, in any case and with blanks around it, or from its number.
-/

namespace TraceArchive

/-- The words of a closed vocabulary with their names and numbers. -/
class Vocabulary (Word : Type) where
  /-- What a word of the vocabulary is called in messages. -/
  title : String
  /-- What may stand in front of a name. -/
  lead : String
  /-- The name under which a word is written. -/
  name : Word → String
  /-- The number of a word. -/
  number : Word → Int
  /-- The word of a number. -/
  ofNumber? : Int → Option Word
  /-- The word of an exact name. -/
  ofName? : String → Option Word

namespace Vocabulary

variable {Word : Type} [Vocabulary Word]

/-- What follows a lead at the front of a text. -/
def withoutLead? : List Char → List Char → Option (List Char)
  | [], characters => some characters
  | expected :: lead, character :: characters =>
      if character = expected then withoutLead? lead characters else none
  | _ :: _, [] => none

/-- The word that a text names, blanks around it and case aside. -/
def ofText? (text : String) : Option Word :=
  let name := Text.raised (Text.trimmed text)
  match ofName? name with
  | some word => some word
  | none =>
      match withoutLead? (lead Word).toList name.toList with
      | none => none
      | some rest => ofName? (String.ofList rest)

/-- Reads a word from its name or its number of 32 bits. -/
def reader : Json.Reader Word
  | _, .string (some text) =>
      match ofText? text with
      | some word => .ok word
      | none => .error (.unknownWord (title Word) text)
  | room, document =>
      match Json.Reader.wholeNumber
          (fun value => -2147483648 ≤ value ∧ value < 2147483648) room document with
      | .error error => .error error
      | .ok value =>
          match ofNumber? value with
          | some word => .ok word
          | none => .error (.unknownNumber (title Word) value)

/-- A word as a JSON value. -/
def toJson (word : Word) : Json :=
  .string (name word)

end Vocabulary

/-! ## Kinds of spans -/

/-- The part that a span plays between services. -/
inductive SpanKind where
  | unspecified
  | internal
  | server
  | client
  | producer
  | consumer
deriving DecidableEq, Repr, Inhabited

instance : Vocabulary SpanKind where
  title := "span kind"
  lead := "SPAN_KIND_"
  name
    | .unspecified => "UNSPECIFIED"
    | .internal => "INTERNAL"
    | .server => "SERVER"
    | .client => "CLIENT"
    | .producer => "PRODUCER"
    | .consumer => "CONSUMER"
  number
    | .unspecified => 0
    | .internal => 1
    | .server => 2
    | .client => 3
    | .producer => 4
    | .consumer => 5
  ofNumber?
    | 0 => some .unspecified
    | 1 => some .internal
    | 2 => some .server
    | 3 => some .client
    | 4 => some .producer
    | 5 => some .consumer
    | _ => none
  ofName?
    | "UNSPECIFIED" => some .unspecified
    | "INTERNAL" => some .internal
    | "SERVER" => some .server
    | "CLIENT" => some .client
    | "PRODUCER" => some .producer
    | "CONSUMER" => some .consumer
    | _ => none

/-! ## Status codes -/

/-- How the operation of a span ended. -/
inductive StatusCode where
  | unset
  | ok
  | error
deriving DecidableEq, Repr, Inhabited

instance : Vocabulary StatusCode where
  title := "status code"
  lead := "STATUS_CODE_"
  name
    | .unset => "UNSET"
    | .ok => "OK"
    | .error => "ERROR"
  number
    | .unset => 0
    | .ok => 1
    | .error => 2
  ofNumber?
    | 0 => some .unset
    | 1 => some .ok
    | 2 => some .error
    | _ => none
  ofName?
    | "UNSET" => some .unset
    | "OK" => some .ok
    | "ERROR" => some .error
    | _ => none

/-! ## States of traces -/

/-- How far the execution that a trace records has come. -/
inductive TraceState where
  | unspecified
  | ok
  | error
  | inProgress
deriving DecidableEq, Repr, Inhabited

instance : Vocabulary TraceState where
  title := "trace state"
  lead := "STATE_"
  name
    | .unspecified => "STATE_UNSPECIFIED"
    | .ok => "OK"
    | .error => "ERROR"
    | .inProgress => "IN_PROGRESS"
  number
    | .unspecified => 0
    | .ok => 1
    | .error => 2
    | .inProgress => 3
  ofNumber?
    | 0 => some .unspecified
    | 1 => some .ok
    | 2 => some .error
    | 3 => some .inProgress
    | _ => none
  ofName?
    | "STATE_UNSPECIFIED" => some .unspecified
    | "UNSPECIFIED" => some .unspecified
    | "OK" => some .ok
    | "ERROR" => some .error
    | "IN_PROGRESS" => some .inProgress
    | _ => none

namespace TraceState

/-- Whether the execution is over. -/
def isTerminal : TraceState → Bool
  | .ok | .error => true
  | .unspecified | .inProgress => false

/-- Whether a trace in this state can still be updated. -/
def acceptsUpdates : TraceState → Bool
  | .inProgress => true
  | .unspecified | .ok | .error => false

end TraceState

/-! ## Kinds of locations -/

/-- What kind of place a trace belongs to. -/
inductive LocationKind where
  | unspecified
  | experiment
  | inferenceTable
deriving DecidableEq, Repr, Inhabited

instance : Vocabulary LocationKind where
  title := "trace location type"
  lead := "TRACE_LOCATION_TYPE_"
  name
    | .unspecified => "TRACE_LOCATION_TYPE_UNSPECIFIED"
    | .experiment => "MLFLOW_EXPERIMENT"
    | .inferenceTable => "INFERENCE_TABLE"
  number
    | .unspecified => 0
    | .experiment => 1
    | .inferenceTable => 2
  ofNumber?
    | 0 => some .unspecified
    | 1 => some .experiment
    | 2 => some .inferenceTable
    | _ => none
  ofName?
    | "TRACE_LOCATION_TYPE_UNSPECIFIED" => some .unspecified
    | "UNSPECIFIED" => some .unspecified
    | "MLFLOW_EXPERIMENT" => some .experiment
    | "INFERENCE_TABLE" => some .inferenceTable
    | _ => none

end TraceArchive
