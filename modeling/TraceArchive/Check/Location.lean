import TraceArchive.Check.Violation
import TraceArchive.Wire.Message

/-!
# Checking locations

A location in a message names an experiment or a table. It is brought into a
canonical form: an experiment without blanks around its identifier, a table as
three plain parts joined by points.
-/

namespace TraceArchive.Check

/-- The field of a message that holds the location. -/
def locationField : String := "info.trace_location"

/-- A text without blanks around it, if anything is left. -/
def nonBlank? : Option String → Option String
  | none => none
  | some text =>
      let content := Text.trimmed text
      if content.isEmpty then none else some content

/-- Whether a character may stand in a part of the name of a table. -/
def isNameCharacter (character : Char) : Bool :=
  character.isAlphanum || character == '_' || character == '-'

/-- A part without the blanks around it and without one pair of grave accents
around the rest. -/
def plainPart (part : List Char) : List Char :=
  let content := Text.trim part
  match content with
  | '\x60' :: rest =>
      match rest.reverse with
      | '\x60' :: inner => inner.reverse
      | _ => content
  | _ => content

/-- Whether a part is a name. -/
def isName (part : List Char) : Bool :=
  !part.isEmpty && part.all isNameCharacter

/-- The canonical full name of a table. -/
def canonicalTableName (given : String) : Except Violation String :=
  match (Text.partsAt '.' given.toList).map plainPart with
  | [catalog, schema, table] =>
      if isName catalog && isName schema && isName table then
        .ok (String.ofList
          (catalog ++ '.' :: schema ++ '.' :: table))
      else .error (.invalidLocation (.badTableName given))
  | _ => .error (.invalidLocation (.badTableName given))

/-- The canonical location of an experiment. -/
def checkExperiment (identifier : Option String) :
    Except Violation TraceLocation :=
  match nonBlank? identifier with
  | none =>
      .error (.missingField
        (locationField ++ ".mlflow_experiment.experiment_id"))
  | some content => .ok (.experiment content)

/-- The canonical location of a table. -/
def checkTable (fullName : Option String) : Except Violation TraceLocation :=
  match nonBlank? fullName with
  | none =>
      .error (.missingField
        (locationField ++ ".inference_table.full_table_name"))
  | some content =>
      match canonicalTableName content with
      | .error violation => .error violation
      | .ok name => .ok (.inferenceTable name)

/-- Whether a declared kind is that of a location; an unspecified one fits
all. -/
def fitsKind (declared : Option LocationKind) (location : TraceLocation) :
    Bool :=
  match declared with
  | none => true
  | some kind => kind == .unspecified || kind == location.kind

/-- The location with its declared kind compared. -/
def withKind (declared : Option LocationKind) (location : TraceLocation) :
    Except Violation TraceLocation :=
  if fitsKind declared location then .ok location
  else
    .error (.invalidLocation
      (.otherKind (declared.getD .unspecified) location.kind))

/-- The canonical form of a location in a message, or what is wrong with
it. -/
def checkLocation : Option Wire.Location → Except Violation TraceLocation
  | none => .error (.missingField locationField)
  | some location =>
      match location.experiment, location.inferenceTable with
      | some _, some _ => .error (.invalidLocation .ambiguous)
      | none, none => .error (.missingField locationField)
      | some identifier, none =>
          (checkExperiment identifier).bind (withKind location.kind)
      | none, some fullName =>
          (checkTable fullName).bind (withKind location.kind)

end TraceArchive.Check
