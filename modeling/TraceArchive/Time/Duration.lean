import TraceArchive.Json.Reader
import TraceArchive.Text.Blank

/-!
# Durations

A duration is a number of seconds below two to the power 64 and a number of
nanoseconds below a second. Its text has the seconds, a fraction of three, six
or nine digits if there are nanoseconds, and the letter `s`.
-/

namespace TraceArchive

/-- The number of nanoseconds of a second. -/
def nanosPerSecond : Nat := 1000000000

/-- A length of time. -/
structure Duration where
  seconds : UInt64
  nanos : Nat
  nanos_lt : nanos < nanosPerSecond
deriving DecidableEq, Repr

namespace Duration

instance : Inhabited Duration := ⟨⟨0, 0, by decide⟩⟩

/-- The length in nanoseconds. -/
def totalNanos (duration : Duration) : Nat :=
  duration.seconds.toNat * nanosPerSecond + duration.nanos

/-- The duration of some seconds and any number of nanoseconds, whole seconds
of which are carried over; there is none when the seconds become too many. -/
def ofParts? (seconds nanos : Nat) : Option Duration :=
  let total := seconds + nanos / nanosPerSecond
  if total < UInt64.size then
    some ⟨UInt64.ofNat total, nanos % nanosPerSecond,
      Nat.mod_lt _ (by decide)⟩
  else none

/-! ## Text -/

/-- The fraction of a second, without digits that only pad it. -/
def fractionCharacters (nanos : Nat) : List Char :=
  if nanos = 0 then []
  else if nanos % 1000000 = 0 then '.' :: Text.padded 3 (nanos / 1000000)
  else if nanos % 1000 = 0 then '.' :: Text.padded 6 (nanos / 1000)
  else '.' :: Text.padded 9 nanos

/-- The characters of a duration. -/
def characters (duration : Duration) : List Char :=
  Nat.toDigits 10 duration.seconds.toNat ++
    fractionCharacters duration.nanos ++ ['s']

/-- The text of a duration. -/
def toText (duration : Duration) : String :=
  String.ofList duration.characters

/-- What stands before the last character, if that is the letter `s`. -/
def beforeUnit? (characters : List Char) : Option (List Char) :=
  match characters.reverse with
  | 's' :: rest => some rest.reverse
  | _ => none

/-- The parts before and after the first point; nothing is after it when there
is none. -/
def splitAtPoint : List Char → List Char × List Char
  | [] => ([], [])
  | '.' :: rest => ([], rest)
  | character :: rest =>
      let (front, back) := splitAtPoint rest
      (character :: front, back)

/-- Reads a duration from its text: seconds, a point with at most nine digits
if wanted, and the unit. -/
def ofCharacters? (characters : List Char) : Option Duration :=
  match beforeUnit? (Text.trim characters) with
  | none => none
  | some body =>
      let (front, fraction) := splitAtPoint body
      if 9 < fraction.length ∨ !fraction.all Char.isDigit then none
      else
        match Text.readInteger UInt64.size front with
        | .error _ => none
        | .ok seconds =>
            ofParts? seconds
              (Text.numberOf fraction * Nat.pow 10 (9 - fraction.length))

/-- Reads a duration from its text in JSON. -/
def reader : Json.Reader Duration := fun room document =>
  match Json.Reader.text room document with
  | .error error => .error error
  | .ok text =>
      match ofCharacters? text.toList with
      | none => .error (.badDuration text)
      | some duration => .ok duration

/-! ## Stored form -/

/-- The parts of a stored duration while they are read. -/
structure Parts where
  seconds : Nat
  nanos : Nat

/-- A stored duration has exactly the two parts. -/
def storedForm : Json.RecordForm Parts where
  initial := ⟨0, 0⟩
  fields :=
    [.needed "secs" (Json.Reader.natural UInt64.size)
        (fun parts seconds => { parts with seconds }),
      .needed "nanos" (Json.Reader.natural UInt32.size)
        (fun parts nanos => { parts with nanos })]
  admitsOthers := false

/-- Reads a stored duration. -/
def storedReader : Json.Reader Duration := fun room document =>
  match storedForm.read room document with
  | .error error => .error error
  | .ok parts =>
      match ofParts? parts.seconds parts.nanos with
      | none => .error .malformed
      | some duration => .ok duration

/-- The stored form of a duration. -/
def toStored (duration : Duration) : Json :=
  .object
    [("secs", .ofWord duration.seconds), ("nanos", .ofNat duration.nanos)]

end Duration

end TraceArchive
