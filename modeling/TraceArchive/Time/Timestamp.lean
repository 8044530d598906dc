import TraceArchive.Time.Instant

/-!
# Timestamps

The text of an instant is its date, its time of day and the zone `Z`. Reading
is more generous: it takes any offset from the zone, a blank or a small letter
instead of the `T`, blanks between the parts, numbers without leading zeros, a
sixtieth second as a leap second, and more digits of a fraction than it keeps.
-/

namespace TraceArchive.Instant

open Text (trimStart numberOf)

/-! ## Writing -/

/-- The characters of a year: four digits, or a sign and at least four digits
outside the years 0 to 9999. -/
def yearCharacters (year : Int) : List Char :=
  if 0 ≤ year ∧ year ≤ 9999 then Text.padded 4 year.natAbs
  else (if year < 0 then '-' else '+') :: Text.padded 4 year.natAbs

/-- The characters of an instant. -/
def characters (instant : Instant) : List Char :=
  let date := instant.date
  let second := instant.secondOfDay
  let leap := instant.nanos / nanosPerSecond
  yearCharacters date.year ++ '-' :: Text.padded 2 date.month ++
    '-' :: Text.padded 2 date.day ++ 'T' :: Text.padded 2 (second / 3600) ++
    ':' :: Text.padded 2 (second / 60 % 60) ++
    ':' :: Text.padded 2 (second % 60 + leap) ++
    Duration.fractionCharacters (instant.nanos % nanosPerSecond) ++ ['Z']

/-- The text of an instant. -/
def toText (instant : Instant) : String :=
  String.ofList instant.characters

/-! ## Reading -/

/-- The digits in front, at most so many, and what follows them. -/
def digitsAtMost : Nat → List Char → List Char × List Char
  | count + 1, character :: rest =>
      if character.isDigit then
        let (digits, remaining) := digitsAtMost count rest
        (character :: digits, remaining)
      else ([], character :: rest)
  | _, characters => ([], characters)

/-- The number of the digits in front, at most so many and at least one. -/
def number? (count : Nat) (characters : List Char) :
    Option (Nat × List Char) :=
  match digitsAtMost count characters with
  | ([], _) => none
  | (digits, remaining) => some (numberOf digits, remaining)

/-- What follows a character that may have blanks before it. -/
def mark? (expected : Char) (characters : List Char) : Option (List Char) :=
  match trimStart characters with
  | character :: rest => if character = expected then some rest else none
  | [] => none

/-- The number of at most two digits that may have blanks before it, within
bounds. -/
def bounded? (least greatest : Nat) (characters : List Char) :
    Option (Nat × List Char) :=
  match number? 2 (trimStart characters) with
  | some (value, rest) =>
      if least ≤ value ∧ value ≤ greatest then some (value, rest) else none
  | none => none

/-- The year in front: up to four digits, or any number of them after a
sign. -/
def year? (characters : List Char) : Option (Int × List Char) :=
  let start := trimStart characters
  match start with
  | '-' :: digits =>
      (number? digits.length digits).map
        (fun (value, rest) => (-(value : Int), rest))
  | '+' :: digits =>
      (number? digits.length digits).map
        (fun (value, rest) => ((value : Int), rest))
  | digits =>
      (number? 4 digits).map (fun (value, rest) => ((value : Int), rest))

/-- The nanoseconds of a fraction, if a point starts one; digits after the
ninth are passed over. -/
def nanos? : List Char → Option (Nat × List Char)
  | '.' :: fraction =>
      match digitsAtMost 9 fraction with
      | ([], _) => none
      | (digits, remaining) =>
          some (numberOf digits * Nat.pow 10 (9 - digits.length),
            remaining.dropWhile Char.isDigit)
  | characters => some (0, characters)

/-- The two digits in front as their values. -/
def twoDigits? : List Char → Option (Nat × Nat × List Char)
  | first :: second :: rest =>
      if first.isDigit ∧ second.isDigit then
        some (Text.digitValue first, Text.digitValue second, rest)
      else none
  | _ => none

/-- The hours and minutes of an offset in seconds, with any number of colons
and blanks between them. -/
def offsetAfterSign? (characters : List Char) : Option (Nat × List Char) :=
  match twoDigits? characters with
  | none => none
  | some (hourTens, hourOnes, afterHours) =>
      match twoDigits? (afterHours.dropWhile
          (fun character => character == ':' || Text.isBlank character)) with
      | none => none
      | some (minuteTens, minuteOnes, rest) =>
          if minuteTens < 6 then
            some ((hourTens * 10 + hourOnes) * 3600 +
              (minuteTens * 10 + minuteOnes) * 60, rest)
          else none

/-- The offset from the zone in seconds: a `Z`, the letters `UTC`, or a sign
with hours and minutes. -/
def offset? (characters : List Char) : Option (Int × List Char) :=
  match characters with
  | 'Z' :: rest => some (0, rest)
  | 'z' :: rest => some (0, rest)
  | '+' :: rest =>
      (offsetAfterSign? rest).map
        (fun (value, remaining) => ((value : Int), remaining))
  | first :: rest =>
      if first = '-' ∨ first = '−' then
        (offsetAfterSign? rest).map
          (fun (value, remaining) => (-(value : Int), remaining))
      else
        match characters with
        | u :: t :: c :: remaining =>
            if u.toUpper = 'U' ∧ t.toUpper = 'T' ∧ c.toUpper = 'C' then
              some (0, remaining)
            else none
        | _ => none
  | [] => none

/-- The parts of a timestamp. -/
structure Reading where
  date : Time.Date
  hour : Nat
  minute : Nat
  /-- The second of the minute, up to sixty. -/
  second : Nat
  nanos : Nat
  /-- The seconds by which the zone is ahead. -/
  offset : Int
deriving DecidableEq, Repr

/-- Reads the parts of a timestamp. -/
def reading? (characters : List Char) : Option Reading := do
  let (year, afterYear) ← year? characters
  let beforeMonth ← mark? '-' afterYear
  let (month, afterMonth) ← bounded? 1 12 beforeMonth
  let beforeDay ← mark? '-' afterMonth
  let (day, afterDay) ← bounded? 1 31 beforeDay
  let beforeHour ←
    match afterDay with
    | 'T' :: rest => some rest
    | 't' :: rest => some rest
    | ' ' :: rest => some rest
    | _ => none
  let (hour, afterHour) ← bounded? 0 23 beforeHour
  let beforeMinute ← mark? ':' afterHour
  let (minute, afterMinute) ← bounded? 0 59 beforeMinute
  let beforeSecond ← mark? ':' afterMinute
  let (second, afterSecond) ← bounded? 0 60 beforeSecond
  let (nanos, afterNanos) ← nanos? afterSecond
  let (offset, rest) ← offset? (trimStart afterNanos)
  if (trimStart rest).isEmpty then
    return ⟨⟨year, month, day⟩, hour, minute, second, nanos, offset⟩
  else none

/-- The instant of the parts of a timestamp. The date has to exist within the
range of years in its own zone and in the common one, and an offset stays below
a day. -/
def ofReading? (reading : Reading) : Option Instant :=
  let wallClock :=
    (reading.date.toDay - firstDay) * secondsPerDay +
      ((reading.hour * 60 + reading.minute) * 60 + min reading.second 59 : Nat)
  if reading.date.exists ∧ reading.offset.natAbs < 86400 ∧
      firstSecond ≤ wallClock ∧ wallClock ≤ lastSecond then
    ofParts? (wallClock - reading.offset)
      (reading.nanos + if reading.second = 60 then nanosPerSecond else 0)
  else none

/-- The instant of a timestamp. -/
def ofCharacters? (characters : List Char) : Option Instant :=
  (reading? characters).bind ofReading?

/-- Reads an instant from its timestamp in JSON. -/
def reader : Json.Reader Instant := fun room document =>
  match Json.Reader.text room document with
  | .error error => .error error
  | .ok text =>
      match ofCharacters? text.toList with
      | none => .error .malformed
      | some instant => .ok instant

end TraceArchive.Instant
