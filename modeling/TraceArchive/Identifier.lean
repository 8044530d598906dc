import TraceArchive.Json.Reader
import TraceArchive.Text.Blank

/-!
# Identifiers of traces and spans

An identifier is a byte string. Wherever text is needed it is written in
lower-case hexadecimal digits, and a trace is stored under that form of its
identifier, its key.
-/

namespace TraceArchive

/-- The identifier of a trace or of a span. -/
structure Identifier where
  bytes : List UInt8
deriving DecidableEq, Repr, Inhabited

namespace Identifier

/-- The lower-case hexadecimal form. -/
def toHex (identifier : Identifier) : String :=
  String.ofList (Text.Hex.encode identifier.bytes)

/-- Reads the hexadecimal form in either case. -/
def ofHex (text : String) : Except Text.Hex.Fault Identifier :=
  match Text.Hex.decode text.toList with
  | .error fault => .error fault
  | .ok bytes => .ok ⟨bytes⟩

/-- Whether the identifier has no bytes. -/
def isEmpty (identifier : Identifier) : Bool :=
  identifier.bytes.isEmpty

/-- Whether the identifier names the trace with a key in either case. -/
def hasKey (identifier : Identifier) (key : String) : Bool :=
  Text.lowered identifier.toHex == Text.lowered key

/-- The key of the trace that a text names: the text without blanks around it
is the hexadecimal form of an identifier with at least one byte. -/
def keyOf? (text : String) : Option String :=
  match ofHex (Text.trimmed text) with
  | .error _ => none
  | .ok identifier =>
      if identifier.isEmpty then none else some identifier.toHex

/-- Reads an identifier from its hexadecimal form. -/
def reader : Json.Reader Identifier := fun room document =>
  match Json.Reader.text room document with
  | .error error => .error error
  | .ok text =>
      match ofHex text with
      | .error fault => .error (.badIdentifier text fault)
      | .ok identifier => .ok identifier

/-- The identifier as a JSON value. -/
def toJson (identifier : Identifier) : Json :=
  .string identifier.toHex

end Identifier

end TraceArchive
