import TraceArchive.Attribute.Codec

/-!
# Bodies that cannot be read or written

A body may be no message of its format, or a message that the other format
cannot hold. What is told about malformed JSON is limited to the wordings of
this library.
-/

namespace TraceArchive.Wire

/-- A body that cannot be read or written at all. -/
inductive Error where
  /-- The body is no JSON of the expected form. -/
  | json (error : Json.ReadError)
  /-- The body is no binary message of the expected form. -/
  | protobuf
  /-- No format belongs to the content type. -/
  | unsupportedContentType (given : String)
  /-- A number stands for no word of its vocabulary. -/
  | unknownNumber (vocabulary : String) (value : Int)
  /-- A number that is not finite stands at a path. -/
  | notFinite (path : String)
  /-- The time of the request is no instant. -/
  | timestampOutOfRange
  /-- The duration of the execution is no duration. -/
  | invalidDuration
  /-- An attribute has no wire form. -/
  | attribute (error : AttributeError)
deriving DecidableEq

namespace Error

/-- The wording of each error. -/
def message : Error → String
  | .json error =>
      match error.detail? with
      | none => "malformed JSON body"
      | some detail => "malformed JSON body: " ++ detail
  | .protobuf => "malformed protobuf body"
  | .unsupportedContentType given =>
      "unsupported content type '" ++ given ++ "'"
  | .unknownNumber vocabulary value =>
      "unknown " ++ vocabulary ++ " value " ++ toString value
  | .notFinite path =>
      "attribute '" ++ path ++ "': number has no wire representation"
  | .timestampOutOfRange => "request_time: timestamp out of range"
  | .invalidDuration =>
      "execution_duration: duration must be non-negative"
  | .attribute error => error.message

/-- The kind under which an error is reported. -/
def kind : Error → String
  | .unsupportedContentType _ => "UNSUPPORTED_MEDIA_TYPE"
  | .attribute _ => "INTERNAL_ERROR"
  | _ => "MALFORMED_REQUEST"

end Error

end TraceArchive.Wire
