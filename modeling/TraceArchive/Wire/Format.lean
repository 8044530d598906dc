import TraceArchive.Text.Blank
import TraceArchive.Wire.Binary
import TraceArchive.Wire.Text

/-!
# Body formats

A body holds a message as JSON or in binary form. The content type of a request
tells the format of its body, and what a client accepts that of the answer.
-/

namespace TraceArchive.Wire

/-- The format of a body. -/
inductive Format where
  | json
  | protobuf
deriving DecidableEq, Repr, Inhabited

namespace Format

/-- The content type that is written for a format. -/
def contentType : Format → String
  | .json => "application/json"
  | .protobuf => "application/x-protobuf"

/-- Whether a text contains a word. -/
def mentions (word : List Char) : List Char → Bool
  | [] => word.isEmpty
  | character :: rest =>
      word.isPrefixOf (character :: rest) || mentions word rest

/-- The format of a body with a content type. Parameters and letter case do not
matter, and without a content type the body is JSON. -/
def ofContentType : Option String → Except Error Format
  | none => .ok .json
  | some given =>
      let mediaType := Text.lowered (Text.trimmed
        (String.ofList (given.toList.takeWhile (· ≠ ';'))))
      if mediaType = "" ∨ mediaType = "application/json" then .ok .json
      else if mediaType = "application/x-protobuf" ∨
          mediaType = "application/protobuf" then
        .ok .protobuf
      else .error (.unsupportedContentType given)

/-- The format of the answer for a client that accepts something: binary if
that is mentioned in any case, else JSON. -/
def ofAccept : Option String → Format
  | none => .json
  | some accepted =>
      if mentions "protobuf".toList (Text.lowered accepted).toList then
        .protobuf
      else .json

/-- Reads a message from a body. -/
def decode (format : Format) (body : List UInt8) : Except Error Trace :=
  match format with
  | .json =>
      match Json.readBytes Trace.form.read body with
      | .error error => .error (.json error)
      | .ok trace => .ok trace
  | .protobuf =>
      match Protobuf.Trace.decode? body with
      | none => .error .protobuf
      | some trace => Trace.ofBinary trace

/-- The body of a message. -/
def encodeMessage (format : Format) (message : Trace) : List UInt8 :=
  match format with
  | .json => Text.Utf8.encode message.toJson.characters
  | .protobuf => message.toBinary.encode

/-- The body of a stored trace, unless an attribute has no wire form. -/
def encode (format : Format) (trace : TraceArchive.Trace) :
    Except Error (List UInt8) :=
  match Trace.ofTrace trace with
  | .error error => .error (.attribute error)
  | .ok message => .ok (format.encodeMessage message)

end Format

end TraceArchive.Wire
