import TraceArchive.Service.Access
import TraceArchive.Service.Submission

/-!
# The requests of the service

A trace is submitted, read, and given or freed of tags. A submission is checked
before any call is made. What is written is based on the version that was read
before, so that a write in between is not lost.
-/

namespace TraceArchive.Service

/-! ## Reading and writing -/

/-- The record under an identifier. -/
def read (traceId : String) : Attempt (Option StoredTrace) :=
  .calling (.readTrace traceId) (Outcome.within .readTrace .store)

/-- The record under an identifier that has to be there. -/
def load (traceId : String) : Attempt StoredTrace := do
  match ← read traceId with
  | some record => return record
  | none => Attempt.settled (.error (.notFound traceId))

/-- Stores a trace that is not there yet. -/
def create (trace : Trace) : Attempt StoredTrace :=
  .calling (.createTrace trace) (Outcome.within .createTrace .store)

/-- Replaces the trace that was read, on behalf of an operation. -/
def replace (operation : Operation) (traceId : String) (stored : StoredTrace)
    (trace : Trace) : Attempt StoredTrace :=
  .calling (.replaceTrace traceId stored.version trace)
    (Outcome.within operation .store)

/-! ## Submitting a trace -/

/-- The identifier of a submitted trace, a new one if the request tells
none. -/
def settleId (submission : Submission) : Attempt String :=
  match submission.traceId? with
  | some traceId => return traceId
  | none => do
      let identifier ←
        Attempt.calling .allocateId
          (Outcome.within .allocateId .allocation)
      return identifier.toHex

/-- Submits a trace and returns what is then stored. -/
def submit (settings : Settings) (principal : Option String)
    (request : Wire.Trace) : Attempt Trace := do
  let submission ← Attempt.settled (Submission.ofRequest settings request)
  let traceId ← settleId submission
  Attempt.require (submission.foreignSpans traceId)
  let stored ← read traceId
  if let some stored := stored then
    Attempt.settled
      (Submission.checkUpdatable stored.trace.info submission.info)
  let _ ← Access.resolve submission.info.location principal
  let trace ←
    Attempt.settled
      (submission.result settings (stored.map StoredTrace.trace) traceId)
  let written ←
    match stored with
    | none => create trace
    | some stored => replace .updateTrace traceId stored trace
  return written.trace

/-! ## Reading a trace -/

/-- The key of a trace that a client names in any spelling. -/
def traceKey (named : String) : Except ServiceError String :=
  match Identifier.keyOf? named with
  | some key => .ok key
  | none => .error (.notFound named)

/-- Reads a trace. -/
def get (named : String) : Attempt Trace := do
  let traceId ← Attempt.settled (traceKey named)
  let stored ← load traceId
  return stored.trace

/-! ## Tags -/

/-- The key of a tag, without the blanks around it. -/
def tagKey (given : String) : Except ServiceError String :=
  let key := Text.trimmed given
  if key.isEmpty then .error (.rejected [.missingField "key"])
  else .ok key

/-- A trace with a tag. -/
def withTag (trace : Trace) (key value : String) : Trace :=
  { trace with
    info := { trace.info with tags := trace.info.tags.insert key value } }

/-- A trace without a tag. -/
def withoutTag (trace : Trace) (key : String) : Trace :=
  { trace with info := { trace.info with tags := trace.info.tags.erase key } }

/-- The record whose tags a client wants to change and may change. -/
def loadForTagging (principal : Option String) (traceId : String) :
    Attempt StoredTrace := do
  let stored ← load traceId
  Access.authorize stored.trace.info.location principal
  return stored

/-- Gives a trace a tag, whatever its state. -/
def setTag (principal : Option String) (named given value : String) :
    Attempt Trace := do
  let key ← Attempt.settled (tagKey given)
  let traceId ← Attempt.settled (traceKey named)
  let stored ← loadForTagging principal traceId
  let written ←
    replace .setTag traceId stored (withTag stored.trace key value)
  return written.trace

/-- Frees a trace of a tag; without that tag nothing is written. -/
def deleteTag (principal : Option String) (named given : String) :
    Attempt Trace := do
  let key ← Attempt.settled (tagKey given)
  let traceId ← Attempt.settled (traceKey named)
  let stored ← loadForTagging principal traceId
  if stored.trace.info.tags.contains key then
    let written ←
      replace .deleteTag traceId stored (withoutTag stored.trace key)
    return written.trace
  else
    return stored.trace

end TraceArchive.Service
