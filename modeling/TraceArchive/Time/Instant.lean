import TraceArchive.Time.Calendar
import TraceArchive.Time.Duration

/-!
# Instants

An instant is a second counted from the start of the year 1970 and a number of
nanoseconds in it. In the last second of a minute the nanoseconds may reach up
to two seconds: the second half of them is a leap second. The years are limited
to a range of about half a million.
-/

namespace TraceArchive

namespace Instant

/-- The seconds of a day. -/
def secondsPerDay : Int := 86400

/-- The day with which the count of seconds starts. -/
def firstDay : Int := Time.Date.toDay ⟨1970, 1, 1⟩

/-- The first second of the least year. -/
def firstSecond : Int :=
  (Time.daysBeforeYear (-262143) - firstDay) * secondsPerDay

/-- The last second of the greatest year. -/
def lastSecond : Int :=
  (Time.daysBeforeYear 262143 - firstDay) * secondsPerDay - 1

/-- Whether a second and its nanoseconds are an instant. -/
def Valid (seconds : Int) (nanos : Nat) : Prop :=
  firstSecond ≤ seconds ∧ seconds ≤ lastSecond ∧
    nanos < 2 * nanosPerSecond ∧ (nanosPerSecond ≤ nanos → seconds % 60 = 59)

instance (seconds : Int) (nanos : Nat) : Decidable (Valid seconds nanos) := by
  unfold Valid
  infer_instance

end Instant

/-- A point in time. -/
structure Instant where
  /-- The seconds since the start of the year 1970. -/
  seconds : Int
  /-- The nanoseconds in the second; a second or more in a leap second. -/
  nanos : Nat
  valid : Instant.Valid seconds nanos
deriving DecidableEq

namespace Instant

instance : Inhabited Instant := ⟨⟨0, 0, by decide⟩⟩

/-- The instant of a second and its nanoseconds, if there is one. -/
def ofParts? (seconds : Int) (nanos : Nat) : Option Instant :=
  if valid : Valid seconds nanos then some ⟨seconds, nanos, valid⟩ else none

/-- The nanoseconds since the start of the year 1970. -/
def totalNanos (instant : Instant) : Int :=
  instant.seconds * nanosPerSecond + instant.nanos

/-- The date of an instant. -/
def date (instant : Instant) : Time.Date :=
  Time.Date.ofDay (instant.seconds / secondsPerDay + firstDay)

/-- The second of the day of an instant. -/
def secondOfDay (instant : Instant) : Nat :=
  (instant.seconds % secondsPerDay).toNat

/-! ## Adding a duration -/

/-- The longest duration that can be added, in nanoseconds. -/
def longestStep : Nat := 9223372036854775807 * 1000000

/-- The instant a duration later. A leap second is left in favour of the
ordinary second with the same fraction, unless the sum stays within it. -/
def add? (instant : Instant) (duration : Duration) : Option Instant :=
  if longestStep < duration.totalNanos then none
  else if nanosPerSecond ≤ instant.nanos ∧ duration.seconds = 0 ∧
      instant.nanos + duration.nanos < 2 * nanosPerSecond then
    ofParts? instant.seconds (instant.nanos + duration.nanos)
  else
    let nanos := instant.nanos % nanosPerSecond + duration.nanos
    ofParts? (instant.seconds + duration.seconds.toNat + nanos / nanosPerSecond)
      (nanos % nanosPerSecond)

end Instant

end TraceArchive
