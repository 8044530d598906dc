import TraceArchive.Service.Program

/-!
# Access to locations

Before a trace is written its location has to exist and the client has to be
allowed to write there. An experiment that was found in the catalog once is
remembered; permissions are asked for every time.
-/

namespace TraceArchive

/-- What a location stands for. -/
inductive LocationTarget where
  | experiment (identifier : String)
  | table (name : TableName)
deriving DecidableEq, Repr

/-- The identifier of an experiment, or the three parts of a table. -/
def LocationTarget.parts : LocationTarget → List String
  | .experiment identifier => [identifier]
  | .table name => [name.catalog, name.schema, name.table]

/-- A location that exists, with what it stands for. -/
structure ResolvedLocation where
  location : TraceLocation
  target : LocationTarget
deriving DecidableEq, Repr

namespace Access

/-- Whether an experiment exists, according to the catalog. -/
def lookUp (identifier : String) : Attempt Bool :=
  .calling (.lookUpExperiment identifier)
    (Outcome.within .lookUpExperiment .collaborator)

/-- Makes sure that an experiment exists. -/
def requireExperiment (identifier : String) : Attempt Unit := do
  let known ← Attempt.calling (.recallExperiment identifier) .ok
  if known then
    return ()
  else
    let found ← lookUp identifier
    if found then
      Attempt.calling (.rememberExperiment identifier) .ok
    else
      Attempt.require [.invalidLocation (.unknownExperiment identifier)]

/-- Makes sure that a client may write to a location. -/
def authorize (location : TraceLocation) (principal : Option String) :
    Attempt Unit := do
  let allowed ←
    Attempt.calling (.authorize location principal)
      (Outcome.within .authorizeWrite .collaborator)
  if allowed then
    return ()
  else
    Attempt.settled (.error (.permissionDenied principal location))

/-- What a location stands for, once that is known to exist. -/
def target : TraceLocation → Attempt LocationTarget
  | .experiment identifier => do
      requireExperiment identifier
      return .experiment identifier
  | .inferenceTable fullName =>
      match TraceLocation.tableName? fullName with
      | some name => return .table name
      | none =>
          Attempt.settled
            (.error (.rejected [.invalidLocation (.badTableName fullName)]))

/-- Makes sure that a location exists and that a client may write to it. -/
def resolve (location : TraceLocation) (principal : Option String) :
    Attempt ResolvedLocation := do
  let target ← target location
  authorize location principal
  return ⟨location, target⟩

end Access

end TraceArchive
