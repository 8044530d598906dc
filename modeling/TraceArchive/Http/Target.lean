import TraceArchive.Text.Blank
import TraceArchive.Text.Hex
import TraceArchive.Text.Utf8

/-!
# Endpoints

The method and the path of a request select an endpoint. Parts of the path that
are parameters are percent-decoded after the path was split, so that an encoded
slash belongs to its part.
-/

namespace TraceArchive.Http

/-- The method of a request. -/
inductive Method where
  | get
  | head
  | post
  | patch
  | delete
  | options
  | other (name : String)
deriving DecidableEq, Repr

/-- The method of an exact name. -/
def Method.ofText (name : String) : Method :=
  match name with
  | "GET" => .get
  | "HEAD" => .head
  | "POST" => .post
  | "PATCH" => .patch
  | "DELETE" => .delete
  | "OPTIONS" => .options
  | name => .other name

/-! ## Paths -/

/-- Whether a character begins the query or the fragment of a target. -/
def endsPath (character : Char) : Bool :=
  character = '?' || character = '#'

/-- Whether a character may stand in the scheme of a target. -/
def isSchemeCharacter (character : Char) : Bool :=
  character.isAlphanum || character = '+' || character = '-' ||
    character = '.'

/-- What follows the scheme of a target and the mark that ends it. -/
def afterScheme? (target : List Char) : Option (List Char) :=
  match target.dropWhile isSchemeCharacter with
  | ':' :: '/' :: '/' :: rest => some rest
  | _ => none

/-- What follows the authority, which stands between the scheme and the path. -/
def afterAuthority (characters : List Char) : List Char :=
  characters.dropWhile
    (fun character => character ≠ '/' ∧ ¬endsPath character)

/-- The characters up to the query or the fragment. -/
def beforeQuery (characters : List Char) : List Char :=
  characters.takeWhile (fun character => !endsPath character)

/-- The path of a target, without query and fragment. A target with a scheme has
an authority in front of its path, and its path is a slash when it is left
out. -/
def pathOf (target : List Char) : List Char :=
  match afterScheme? target with
  | none => beforeQuery target
  | some rest =>
      match beforeQuery (afterAuthority rest) with
      | [] => ['/']
      | path => path

/-- The parts of a path between its slashes; a path begins with one. -/
def segments? : List Char → Option (List (List Char))
  | '/' :: rest => some (Text.partsAt '/' rest)
  | _ => none

/-- The byte that two hexadecimal digits stand for. -/
def escapedByte? (high low : UInt8) : Option UInt8 :=
  match Text.Hex.digit? (Char.ofNat high.toNat),
      Text.Hex.digit? (Char.ofNat low.toNat) with
  | some highValue, some lowValue =>
      some (UInt8.ofNat (16 * highValue + lowValue))
  | _, _ => none

/-- The sign in front of an escaped byte. -/
def percentSign : UInt8 := 0x25

/-- Replaces each percent sign before two hexadecimal digits by the byte that
they stand for; any other stands for itself. -/
def percentDecode : List UInt8 → List UInt8
  | [] => []
  | [byte] => [byte]
  | [first, second] => [first, second]
  | first :: high :: low :: rest =>
      if first = percentSign then
        match escapedByte? high low with
        | some byte => byte :: percentDecode rest
        | none => first :: percentDecode (high :: low :: rest)
      else first :: percentDecode (high :: low :: rest)

/-- The text of a part of a path. -/
def parameter? (segment : List Char) : Option String :=
  Text.Utf8.decode? (percentDecode (Text.Utf8.encode segment))

/-! ## Endpoints -/

/-- What can be asked of the server. -/
inductive Endpoint where
  | health
  | submit
  | get (traceId : String)
  | setTag (traceId : String)
  | deleteTag (traceId key : String)
deriving DecidableEq, Repr

/-- Why a request has no endpoint. -/
inductive RouteFault where
  | unknownPath
  /-- The path has other methods. -/
  | unknownMethod
  /-- A parameter is not text once it is decoded. -/
  | badParameter (name : String)
deriving DecidableEq, Repr

/-- A path that is known, with its parameters still encoded. -/
inductive Route where
  | health
  | traces
  | trace (traceId : List Char)
  | tags (traceId : List Char)
  | tag (traceId key : List Char)
deriving DecidableEq, Repr

namespace Route

/-- The route of a path that is the one of traces or below it. A parameter may
be empty, unless it is the last part of the path. -/
def below : List (List Char) → Option Route
  | [] => some .traces
  | [traceId] => if traceId.isEmpty then none else some (.trace traceId)
  | [traceId, word] =>
      if word = "tags".toList then some (.tags traceId) else none
  | [traceId, word, key] =>
      if word ≠ "tags".toList ∨ key.isEmpty then none
      else some (.tag traceId key)
  | _ => none

/-- The route of a path. -/
def ofPath? (path : List Char) : Option Route :=
  match segments? path with
  | none => none
  | some [only] => if only = "health".toList then some .health else none
  | some (first :: second :: rest) =>
      if first = "tracing".toList ∧ second = "traces".toList then below rest
      else none
  | some [] => none

/-- The decoded identifier of a trace. -/
def traceId (encoded : List Char) : Except RouteFault String :=
  match parameter? encoded with
  | none => .error (.badParameter "trace_id")
  | some traceId => .ok traceId

/-- The decoded key of a tag. -/
def tagKey (encoded : List Char) : Except RouteFault String :=
  match parameter? encoded with
  | none => .error (.badParameter "key")
  | some key => .ok key

/-- The endpoint of a method on a route. -/
def endpoint (route : Route) (method : Method) :
    Except RouteFault Endpoint :=
  match route, method with
  | .health, .get | .health, .head => .ok .health
  | .traces, .post => .ok .submit
  | .trace encoded, .get | .trace encoded, .head =>
      (traceId encoded).map .get
  | .tags encoded, .patch => (traceId encoded).map .setTag
  | .tag encoded key, .delete =>
      (traceId encoded).bind (fun traceId =>
        (tagKey key).map (.deleteTag traceId))
  | _, _ => .error .unknownMethod

end Route

/-- The endpoint of a method and a target. -/
def Endpoint.select (method : Method) (target : String) :
    Except RouteFault Endpoint :=
  match Route.ofPath? (pathOf target.toList) with
  | none => .error .unknownPath
  | some route => route.endpoint method

end TraceArchive.Http
