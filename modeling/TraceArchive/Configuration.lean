import TraceArchive.Service.Settings
import TraceArchive.Text.Integer

/-!
# Configuration

A server is configured by named variables. A variable that is blank counts as
absent, and one that cannot be read leaves the value that holds without it.
-/

namespace TraceArchive

/-- Where snapshots are kept and how often they are taken. -/
structure Persistence where
  directory : String
  intervalSeconds : Nat := 300
deriving DecidableEq, Repr

/-- The configuration of a server. -/
structure Configuration where
  host : String := "0.0.0.0"
  port : Nat := 5050
  settings : Settings := {}
  /-- The time in milliseconds for a request that asks for none. -/
  defaultTimeout : Nat := 5000
  /-- The longest time in milliseconds that a request can ask for. -/
  maximalTimeout : Nat := 30000
  /-- The experiments that exist; without a list all do. -/
  experiments : Option (List String) := none
  /-- How many seconds an experiment is known to exist. -/
  cacheSeconds : Nat := 60
  persistence : Option Persistence := none
deriving DecidableEq, Repr

namespace Configuration

/-- What the variables are looked up in. -/
abbrev Variables := String → Option String

/-! ## Single variables -/

/-- The value of a variable that is not blank. -/
def value? (lookup : Variables) (name : String) : Option String :=
  match lookup name with
  | none => none
  | some value =>
      if (Text.trimmed value).isEmpty then none else some value

/-- A natural number below a limit, blanks around it aside. -/
def natural? (limit : Nat) (text : String) : Option Nat :=
  (Text.readInteger limit (Text.trim text.toList)).toOption

/-- The natural number below a limit that a variable gives. -/
def number? (lookup : Variables) (limit : Nat) (name : String) :
    Option Nat :=
  (value? lookup name).bind (natural? limit)

/-- The natural number of 64 bits that a variable gives. -/
def word? (lookup : Variables) (name : String) : Option Nat :=
  number? lookup UInt64.size name

/-- The parts of a text between commas, without blanks around them and without
the empty ones. -/
def commaSeparated (text : String) : List String :=
  ((Text.partsAt ',' text.toList).map
      (fun part => String.ofList (Text.trim part))).filter
    (fun part => !part.isEmpty)

/-! ## Groups of variables -/

/-- The settings of the service. -/
def settingsOf (lookup : Variables) : Settings where
  validation :=
    (((value? lookup "TRACEKEEP_VALIDATION_MODE").bind
      (fun text => (Check.Policy.ofText text).toOption))).getD
        .lenientInProgress
  updateMode :=
    (((value? lookup "TRACEKEEP_UPDATE_MODE").bind
      (fun text => (UpdateMode.ofText text).toOption))).getD .replace
  attributes :=
    match word? lookup "TRACEKEEP_MAX_ATTRIBUTES" with
    | some maximum => .enforce maximum
    | none => .trustClient

/-- The place of snapshots, if a directory is given. -/
def persistenceOf (lookup : Variables) : Option Persistence :=
  match value? lookup "TRACEKEEP_DATA_DIR" with
  | none => none
  | some directory =>
      match word? lookup "TRACEKEEP_SNAPSHOT_INTERVAL_SECS" with
      | some intervalSeconds => some { directory, intervalSeconds }
      | none => some { directory }

/-- The configuration that variables give. -/
def ofVariables (lookup : Variables) : Configuration :=
  let standard : Configuration := {}
  { host := (value? lookup "TRACEKEEP_HOST").getD standard.host
    port :=
      (number? lookup UInt16.size "TRACEKEEP_PORT").getD standard.port
    settings := settingsOf lookup
    defaultTimeout :=
      (word? lookup "TRACEKEEP_DEFAULT_TIMEOUT_MS").getD
        standard.defaultTimeout
    maximalTimeout :=
      (word? lookup "TRACEKEEP_MAX_TIMEOUT_MS").getD
        standard.maximalTimeout
    experiments :=
      (value? lookup "TRACEKEEP_EXPERIMENTS").map commaSeparated
    cacheSeconds :=
      (word? lookup "TRACEKEEP_CATALOG_CACHE_TTL_SECS").getD
        standard.cacheSeconds
    persistence := persistenceOf lookup }

end Configuration

end TraceArchive
