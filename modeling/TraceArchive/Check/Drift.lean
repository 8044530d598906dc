import TraceArchive.Trace.Basic

/-!
# Drift of durations

The time of a request and the duration of its execution give an end that should
be the end of the root span. A difference beyond a tolerance is reported and
nothing more.
-/

namespace TraceArchive.Check

/-- The nanoseconds by which the two ends may differ. -/
def toleranceNanos : Nat := 1000000

/-- Two ends that differ, in nanoseconds since the start of the year 1970. -/
structure DurationMismatch where
  expectedEnd : UInt64
  rootEnd : UInt64
  driftNanos : Nat
deriving DecidableEq, Repr

/-- The nanoseconds of an instant from the year 1970 on, as far as a signed
number of 64 bits holds them. -/
def epochNanos? (instant : Instant) : Option Nat :=
  let nanos := instant.totalNanos
  if 0 ≤ nanos ∧ nanos < 9223372036854775808 then some nanos.toNat else none

/-- The end that follows from the request, as far as 64 bits hold it. -/
def expectedEnd? (info : TraceInfo) : Option Nat :=
  match info.executionDuration, epochNanos? info.requestTime with
  | some duration, some start =>
      if duration.totalNanos < UInt64.size ∧
          start + duration.totalNanos < UInt64.size then
        some (start + duration.totalNanos)
      else none
  | _, _ => none

/-- The distance of two numbers. -/
def distance (left right : Nat) : Nat :=
  (left - right) + (right - left)

/-- The mismatch between the two ends, if they differ by more than the
tolerance. -/
def durationMismatch? (info : TraceInfo) (spans : List Span) :
    Option DurationMismatch :=
  match rootSpan? spans, expectedEnd? info with
  | some root, some expected =>
      let drift := distance expected root.endTime.toNat
      if toleranceNanos < drift then
        some ⟨UInt64.ofNat expected, root.endTime, drift⟩
      else none
  | _, _ => none

end TraceArchive.Check
