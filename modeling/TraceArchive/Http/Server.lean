import TraceArchive.Configuration
import TraceArchive.Http.Target
import TraceArchive.Service.Requests
import TraceArchive.Service.World
import TraceArchive.Wire.Format

/-!
# The server

A request of HTTP becomes a request of the service, and its result or error a
response. The headers tell who the client is, how much time there is, and in
which formats bodies are sent and wanted.
-/

namespace TraceArchive.Http

/-! ## Requests and responses -/

/-- A request of HTTP. -/
structure Request where
  method : Method
  /-- The path with what stands in front of it and what follows it. -/
  target : String
  headers : List (String × String)
  body : List UInt8

/-- A response of HTTP. -/
structure Response where
  status : Nat
  contentType : Option String
  body : List UInt8
deriving DecidableEq, Repr

namespace Request

/-- Whether a character may stand in the value of a header that counts. -/
def isHeaderCharacter (character : Char) : Bool :=
  character = '\t' || (' ' ≤ character && character ≤ '~')

/-- The value of a header, whose name is compared without regard to case. A
value with other than visible characters counts as absent. -/
def header? (request : Request) (name : String) : Option String :=
  match request.headers.find? (fun entry => Text.lowered entry.1 == name) with
  | none => none
  | some (_, value) =>
      if value.toList.all isHeaderCharacter then some value else none

/-- The header with the name of the client. -/
def principalHeader : String := "x-tracekeep-principal"

/-- The header with the time in milliseconds that a request has. -/
def timeoutHeader : String := "x-tracekeep-timeout-ms"

/-- The name of the client, if it gives one. -/
def principal? (request : Request) : Option String :=
  match request.header? principalHeader with
  | none => none
  | some given =>
      let name := Text.trimmed given
      if name.isEmpty then none else some name

/-- The time that a request asks for. -/
def timeout? (request : Request) : Option Nat :=
  (request.header? timeoutHeader).bind (Configuration.natural? UInt64.size)

/-- The format of the response: what the client says it accepts, if it names a
format in lower case, else the format at hand. -/
def responseFormat (request : Request) (own : Wire.Format) : Wire.Format :=
  match request.header? "accept" with
  | none => own
  | some accepted =>
      if Wire.Format.mentions "protobuf".toList accepted.toList ||
          Wire.Format.mentions "json".toList accepted.toList then
        Wire.Format.ofAccept (some accepted)
      else own

end Request

namespace Response

/-- A response without a body. -/
def bare (status : Nat) : Response :=
  ⟨status, none, []⟩

/-- A response with plain text. -/
def text (status : Nat) (content : String) : Response :=
  ⟨status, some "text/plain; charset=utf-8",
    Text.Utf8.encode content.toList⟩

/-- A response with a JSON value. -/
def json (status : Nat) (content : Json) : Response :=
  ⟨status, some Wire.Format.json.contentType,
    Text.Utf8.encode content.characters⟩

/-- The response without its body. -/
def withoutBody (response : Response) : Response :=
  { response with body := [] }

end Response

/-! ## Errors -/

/-- Why a request that has an endpoint fails. -/
inductive Failure where
  /-- A body cannot be read or written. -/
  | wire (error : Wire.Error)
  /-- The service refuses or fails. -/
  | service (error : ServiceError)
  /-- The body of the request is too long. -/
  | bodyTooLong
deriving DecidableEq

/-- The status of an error of a body. -/
def wireStatus : Wire.Error → Nat
  | .unsupportedContentType _ => 415
  | .attribute _ => 500
  | _ => 400

/-- The status of an error of the store. -/
def storeStatus : StoreError → Nat
  | .alreadyExists _ | .concurrentUpdate _ _ _ => 409
  | .notFound _ => 404
  | .unavailable _ => 503
  | .keyMismatch _ _ => 500

/-- The status of an error of the service. -/
def serviceStatus : ServiceError → Nat
  | .rejected _ => 400
  | .permissionDenied _ _ => 403
  | .notFound _ => 404
  | .immutable _ _ => 409
  | .timeout _ => 504
  | .collaborator _ _ => 503
  | .allocation _ _ => 500
  | .store _ error => storeStatus error

/-- A violation as part of the body of an error. -/
def violationToJson (violation : Violation) : Json :=
  .object
    (("kind", .string violation.kind) ::
      (violation.subject?.toList.map
          (fun subject => ("subject", .string subject)) ++
        [("message", .string violation.message)]))

/-- The body of an error. -/
def errorToJson (kind message : String) (violations : List Violation) :
    Json :=
  .object
    ([("error_code", .string kind), ("message", .string message)] ++
      if violations.isEmpty then []
      else [("violations", .list (violations.map violationToJson))])

/-- The response about a failure. -/
def Failure.response : Failure → Response
  | .wire error =>
      .json (wireStatus error) (errorToJson error.kind error.message [])
  | .service error =>
      .json (serviceStatus error)
        (errorToJson error.kind error.message error.violations)
  | .bodyTooLong =>
      .text 413 "Failed to buffer the request body: length limit exceeded"

/-- The response about a request without an endpoint. -/
def RouteFault.response : RouteFault → Response
  | .unknownPath => .bare 404
  | .unknownMethod => .bare 405
  | .badParameter name =>
      .text 400 ("Invalid URL: Invalid UTF-8 in \x60" ++ name ++ "\x60")

/-! ## Endpoints -/

/-- What the server knows of its configuration. -/
structure Server where
  settings : Settings
  defaultTimeout : Nat
  maximalTimeout : Nat
deriving DecidableEq, Repr

/-- A program of the server that may end in a failure. -/
abbrev Handler (Value : Type) := ExceptT Failure Program Value

namespace Handler

variable {Value : Type}

/-- A value or a failure that is there without any call. -/
def settled (result : Except Failure Value) : Handler Value :=
  .mk (.done result)

/-- A value or an error of a body. -/
def ofWire (result : Except Wire.Error Value) : Handler Value :=
  settled (result.mapError .wire)

/-- The request of the service within a handler. -/
def ofAttempt (attempt : Attempt Value) : Handler Value :=
  .mk (Program.andThen attempt.run
    (fun result => .done (result.mapError .service)))

/-- The response of a handler. -/
def response (handler : Handler Response) : Program Response :=
  Program.andThen handler.run
    (fun result =>
      match result with
      | .ok response => .done response
      | .error failure => .done failure.response)

end Handler

/-- The version that the server reports. -/
def version : String := "0.1.0"

/-- The response of a server that works. -/
def healthy : Response :=
  .json 200
    (.object
      [("status", .string "healthy"), ("version", .string version)])

/-- The longest body that is read, in bytes. -/
def bodyLimit : Nat := 2097152

/-- The body of a request, unless it is too long. -/
def bodyOf (request : Request) : Except Failure (List UInt8) :=
  if bodyLimit < request.body.length then .error .bodyTooLong
  else .ok request.body

/-- The response with a trace in the format that the client accepts. -/
def traceResponse (request : Request) (own : Wire.Format) (trace : Trace) :
    Handler Response := do
  let format := request.responseFormat own
  let body ← Handler.ofWire (format.encode trace)
  return ⟨200, some format.contentType, body⟩

/-- A tag in the body of a request. -/
structure TagRequest where
  key : String
  value : String
deriving DecidableEq, Repr

/-- The fields of a tag in the body of a request. -/
def TagRequest.form : Json.RecordForm TagRequest where
  initial := ⟨"", ""⟩
  fields :=
    [.possible "key" Json.Reader.text (fun tag key => { tag with key }),
      .possible "value" Json.Reader.text (fun tag value => { tag with value })]
  admitsOthers := true

/-- Reads a tag from the body of a request. -/
def TagRequest.ofBody (body : List UInt8) : Except Wire.Error TagRequest :=
  (Json.readBytes form.read body).mapError .json

/-- Submits the trace in the body. -/
def submit (settings : Settings) (request : Request) : Handler Response := do
  let body ← Handler.settled (bodyOf request)
  let format ←
    Handler.ofWire
      (Wire.Format.ofContentType (request.header? "content-type"))
  let message ← Handler.ofWire (format.decode body)
  let trace ←
    Handler.ofAttempt (Service.submit settings request.principal? message)
  traceResponse request format trace

/-- Reads a trace. -/
def get (request : Request) (traceId : String) : Handler Response := do
  let trace ← Handler.ofAttempt (Service.get traceId)
  traceResponse request .json trace

/-- Gives a trace the tag in the body. -/
def setTag (request : Request) (traceId : String) : Handler Response := do
  let body ← Handler.settled (bodyOf request)
  let tag ← Handler.ofWire (TagRequest.ofBody body)
  let trace ←
    Handler.ofAttempt
      (Service.setTag request.principal? traceId tag.key tag.value)
  traceResponse request .json trace

/-- Frees a trace of a tag. -/
def deleteTag (request : Request) (traceId key : String) :
    Handler Response := do
  let trace ←
    Handler.ofAttempt (Service.deleteTag request.principal? traceId key)
  traceResponse request .json trace

/-- What an endpoint does. -/
def Endpoint.handler (endpoint : Endpoint) (settings : Settings)
    (request : Request) : Handler Response :=
  match endpoint with
  | .health => Handler.settled (.ok healthy)
  | .submit => Http.submit settings request
  | .get traceId => Http.get request traceId
  | .setTag traceId => Http.setTag request traceId
  | .deleteTag traceId key => Http.deleteTag request traceId key

namespace Server

/-- The server of a configuration. -/
def ofConfiguration (configuration : Configuration) : Server where
  settings := configuration.settings
  defaultTimeout := configuration.defaultTimeout
  maximalTimeout := configuration.maximalTimeout

/-- The time in milliseconds that a request has. -/
def timeout (server : Server) (request : Request) : Nat :=
  min (request.timeout?.getD server.defaultTimeout) server.maximalTimeout

/-- The program that answers a request. Questions about what is allowed are
answered for every path, and a response to a question for the head only has no
body. -/
def respond (server : Server) (request : Request) : Program Response :=
  if request.method = .options then .done (.bare 200)
  else
    let program :=
      match Endpoint.select request.method request.target with
      | .error fault => .done fault.response
      | .ok endpoint => (endpoint.handler server.settings request).response
    if request.method = .head then
      program.andThen (fun response => .done response.withoutBody)
    else program

/-- Answers a request in a world. -/
def serve (server : Server) (conditions : Conditions) (world : World)
    (request : Request) : World × Response :=
  (server.respond request).runWithin conditions (server.timeout request) world

end Server

end TraceArchive.Http
