import TraceArchive.Check.Drift

/-!
# Ends of executions

The end that follows from the time of a request and the duration of its execution
is computed twice: in nanoseconds, to compare it with the end of the root span,
and as an instant. A difference from the root span is reported exactly if the
nanoseconds fit their numbers: `durationMismatch?_eq_some_iff`. The two ends are
the same unless the execution leaves a leap second: `endTime?_of_mismatch`.
-/

namespace TraceArchive

/-! ## Adding a duration to an instant -/

namespace Instant

variable {instant later : Instant} {duration : Duration}

/-- Whether an instant is in a leap second and a duration leads out of it. -/
def LeavesLeapSecond (instant : Instant) (duration : Duration) : Prop :=
  nanosPerSecond ≤ instant.nanos ∧
    2 * nanosPerSecond ≤ instant.nanos + duration.totalNanos

instance (instant : Instant) (duration : Duration) :
    Decidable (instant.LeavesLeapSecond duration) := by
  unfold LeavesLeapSecond
  infer_instance

theorem ofParts?_eq_some_iff {seconds : Int} {nanos : Nat} :
    ofParts? seconds nanos = some later ↔
      later.seconds = seconds ∧ later.nanos = nanos := by
  unfold ofParts?
  constructor
  · intro isInstant
    split at isInstant
    · cases isInstant
      exact ⟨rfl, rfl⟩
    · cases isInstant
  · rintro ⟨rfl, rfl⟩
    exact dif_pos later.valid

/-- A sum is as much later as the duration is long, except that the additional
second is not counted when a leap second is left. -/
theorem totalNanos_of_add?
    (isSum : instant.add? duration = some later) :
    later.totalNanos +
        (if instant.LeavesLeapSecond duration then nanosPerSecond else 0 : Nat) =
      instant.totalNanos + duration.totalNanos := by
  have below := instant.valid.2.2.1
  have small := duration.nanos_lt
  unfold add? at isSum
  split at isSum
  · cases isSum
  split at isSum
  · -- The sum stays within the leap second.
    rename_i within
    obtain ⟨_, noSeconds, inSecond⟩ := within
    obtain ⟨isSecond, isNanos⟩ := ofParts?_eq_some_iff.mp isSum
    have onlyNanos : duration.totalNanos = duration.nanos := by
      simp [Duration.totalNanos, noSeconds]
    have stays : ¬instant.LeavesLeapSecond duration := by
      rintro ⟨_, leaves⟩
      omega
    rw [if_neg stays, onlyNanos, totalNanos, totalNanos, isSecond, isNanos]
    omega
  · rename_i notWithin
    obtain ⟨isSecond, isNanos⟩ := ofParts?_eq_some_iff.mp isSum
    have leaves_iff :
        instant.LeavesLeapSecond duration ↔
          nanosPerSecond ≤ instant.nanos := by
      refine ⟨And.left, fun leap => ⟨leap, ?_⟩⟩
      by_cases noSeconds : duration.seconds = 0
      · have beyond : ¬instant.nanos + duration.nanos < 2 * nanosPerSecond :=
          fun inSecond => notWithin ⟨leap, noSeconds, inSecond⟩
        have atLeast : duration.nanos ≤ duration.totalNanos :=
          Nat.le_add_left _ _
        omega
      · have positive : 0 < duration.seconds.toNat :=
          Nat.pos_of_ne_zero fun isZero =>
            noSeconds (UInt64.toNat_inj.mp isZero)
        simp only [Duration.totalNanos, nanosPerSecond] at leap ⊢
        omega
    simp only [leaves_iff, totalNanos, Duration.totalNanos, isSecond, isNanos,
      nanosPerSecond] at below small ⊢
    split
    · omega
    · omega

/-- A sum is an instant if neither the start is before the year 1970 nor the end
is beyond 64 bits of nanoseconds. -/
theorem exists_add?
    (notBefore : 0 ≤ instant.totalNanos)
    (small : instant.totalNanos + duration.totalNanos < UInt64.size) :
    ∃ later, instant.add? duration = some later := by
  have isSize : UInt64.size = 18446744073709551616 := rfl
  have isLongest : longestStep = 9223372036854775807000000 := rfl
  have fits : ¬longestStep < duration.totalNanos := by omega
  obtain ⟨first, last, below, leap⟩ := instant.valid
  have parts :
      ∃ seconds nanos, instant.add? duration = ofParts? seconds nanos ∧
        Valid seconds nanos := by
    unfold add?
    rw [if_neg fits]
    split
    · rename_i within
      refine ⟨_, _, rfl, first, last, within.2.2, ?_⟩
      exact fun _ => leap within.1
    · have isFirst : firstSecond = -8334601228800 := by decide
      have isLast : lastSecond = 8210266876799 := by decide
      refine ⟨_, _, rfl, ?_⟩
      rw [isSize] at small
      simp only [Valid, isFirst, isLast, totalNanos, Duration.totalNanos,
        nanosPerSecond] at notBefore small below ⊢
      omega
  obtain ⟨seconds, nanos, isSum, valid⟩ := parts
  exact ⟨⟨seconds, nanos, valid⟩, isSum.trans (dif_pos valid)⟩

end Instant

namespace Check

/-! ## Ends in nanoseconds -/

/-- The end of an execution in nanoseconds since the start of the year 1970,
whatever its size. -/
def exactEnd (requestTime : Instant) (duration : Duration) : Int :=
  requestTime.totalNanos + duration.totalNanos

/-- Whether the nanoseconds of the time of a request fit a signed number of 64
bits and are not negative, and those of the end fit an unsigned one. -/
def FitsWords (requestTime : Instant) (duration : Duration) : Prop :=
  0 ≤ requestTime.totalNanos ∧ requestTime.totalNanos < 9223372036854775808 ∧
    exactEnd requestTime duration < UInt64.size

instance (requestTime : Instant) (duration : Duration) :
    Decidable (FitsWords requestTime duration) := by
  unfold FitsWords
  infer_instance

/-- Whether a mismatch tells exactly of the end of an execution, of that of a
root span, and of the distance of the two. -/
structure DurationMismatch.IsExact (mismatch : DurationMismatch) (end' : Int)
    (root : Span) : Prop where
  expectedEnd : (mismatch.expectedEnd.toNat : Int) = end'
  rootEnd : mismatch.rootEnd = root.endTime
  driftNanos : mismatch.driftNanos = (end' - root.endTime.toNat).natAbs

theorem distance_of_end {end' : Int} {expected : Nat}
    (isEnd : end' = expected) (rootEnd : Nat) :
    distance expected rootEnd = (end' - rootEnd).natAbs := by
  unfold distance
  omega

/-- The difference of two ends that fit 64 bits does so, too. -/
theorem drift_lt {requestTime : Instant} {duration : Duration}
    (fits : FitsWords requestTime duration) (rootEnd : UInt64) :
    (exactEnd requestTime duration - rootEnd.toNat).natAbs < UInt64.size := by
  have isSize : UInt64.size = 18446744073709551616 := rfl
  have isWord := rootEnd.toNat_lt
  obtain ⟨notBefore, _, below⟩ := fits
  simp only [exactEnd] at below ⊢
  omega

theorem epochNanos?_eq_some_iff {instant : Instant} {nanos : Nat} :
    epochNanos? instant = some nanos ↔
      instant.totalNanos = nanos ∧ nanos < 9223372036854775808 := by
  simp only [epochNanos?]
  split
  · rw [Option.some.injEq]
    omega
  · simp only [reduceCtorEq, false_iff]
    omega

section Duration

variable {info : TraceInfo} {duration : Duration}
  (lasted : info.executionDuration = some duration)

include lasted

theorem expectedEnd?_eq_some_iff {expected : Nat} :
    expectedEnd? info = some expected ↔
      FitsWords info.requestTime duration ∧
        exactEnd info.requestTime duration = expected := by
  unfold expectedEnd? FitsWords exactEnd
  rw [lasted]
  cases isStart : epochNanos? info.requestTime with
  | none =>
      have notStart :
          ∀ nanos, ¬epochNanos? info.requestTime = some nanos := by
        simp [isStart]
      simp only [reduceCtorEq, false_iff]
      rintro ⟨⟨notBefore, small, _⟩, _⟩
      refine
        notStart info.requestTime.totalNanos.toNat
          (epochNanos?_eq_some_iff.mpr ?_)
      omega
  | some start =>
      obtain ⟨isTotal, small⟩ := epochNanos?_eq_some_iff.mp isStart
      dsimp only
      split
      · rw [Option.some.injEq]
        omega
      · simp only [reduceCtorEq, false_iff]
        omega

/-! ## What is reported -/

section Root

variable {spans : List Span} {root : Span}
  (isRoot : rootSpan? spans = some root) {mismatch : DurationMismatch}

include isRoot

/-- What is reported is exact. -/
theorem isExact_of_mismatch
    (reported : durationMismatch? info spans = some mismatch) :
    let end' := exactEnd info.requestTime duration
    FitsWords info.requestTime duration ∧
      toleranceNanos < (end' - root.endTime.toNat).natAbs ∧
        mismatch.IsExact end' root := by
  intro end'
  rw [durationMismatch?, isRoot] at reported
  cases isExpected : expectedEnd? info with
  | none =>
      rw [isExpected] at reported
      cases reported
  | some expected =>
      obtain ⟨fits, isEnd⟩ := (expectedEnd?_eq_some_iff lasted).mp isExpected
      have isWord : expected < UInt64.size := by
        have below := fits.2.2
        omega
      simp only [isExpected, distance_of_end isEnd] at reported
      split at reported
      · rename_i beyond
        cases reported
        refine ⟨fits, beyond, ?_, rfl, rfl⟩
        rw [UInt64.toNat_ofNat_of_lt' isWord]
        exact isEnd.symm
      · cases reported

/-- What is exact is reported, if the numbers are large enough for it. -/
theorem mismatch_of_isExact
    (fits : FitsWords info.requestTime duration)
    (beyond :
      toleranceNanos <
        (exactEnd info.requestTime duration - root.endTime.toNat).natAbs)
    (isExact :
      mismatch.IsExact (exactEnd info.requestTime duration) root) :
    durationMismatch? info spans = some mismatch := by
  have isExpected : expectedEnd? info = some mismatch.expectedEnd.toNat :=
    (expectedEnd?_eq_some_iff lasted).mpr ⟨fits, isExact.expectedEnd.symm⟩
  have isReport :
      durationMismatch? info spans =
        some ⟨mismatch.expectedEnd, root.endTime,
          (exactEnd info.requestTime duration - root.endTime.toNat).natAbs⟩ := by
    simp only [durationMismatch?, isRoot, isExpected,
      distance_of_end isExact.expectedEnd.symm, if_pos beyond,
      UInt64.ofNat_toNat]
  rw [isReport, ← isExact.driftNanos, ← isExact.rootEnd]

/-- A difference between the end of an execution and that of the root span is
reported exactly if it exceeds the tolerance and the nanoseconds fit their
numbers. Then the report is exact, and so is every number on the way to it. -/
theorem durationMismatch?_eq_some_iff (mismatch : DurationMismatch) :
    let end' := exactEnd info.requestTime duration
    let drift := (end' - root.endTime.toNat).natAbs
    (durationMismatch? info spans = some mismatch ↔
        FitsWords info.requestTime duration ∧ toleranceNanos < drift ∧
          mismatch.IsExact end' root) ∧
      (FitsWords info.requestTime duration → drift < UInt64.size) := by
  intro end' drift
  refine
    ⟨⟨isExact_of_mismatch lasted isRoot, ?_⟩, fun fits => drift_lt fits _⟩
  rintro ⟨fits, beyond, isExact⟩
  exact mismatch_of_isExact lasted isRoot fits beyond isExact

end Root

end Duration

theorem nanosPerSecond_pos : 0 < nanosPerSecond := by
  decide

/-- One second. -/
def second : Duration :=
  ⟨1, 0, nanosPerSecond_pos⟩

/-- What is known of a trace whose execution lasted one second. -/
def secondLong (requestTime : Instant) : TraceInfo :=
  { TraceInfo.plain "01" (.experiment "1") requestTime with
    executionDuration := some second }

/-- A root span with the given end. -/
def rootUntil (endTime : UInt64) : Span :=
  Span.plain ⟨[1]⟩ ⟨[2]⟩ "root" 0 endTime

theorem durationMismatch?_eq_some_iff_secondLong :
    durationMismatch? (secondLong ⟨5, 0, by decide⟩) [rootUntil 7000000000] =
      some ⟨6000000000, 7000000000, 1000000000⟩ := by
  have exact_iff :=
    durationMismatch?_eq_some_iff
      (show (secondLong ⟨5, 0, by decide⟩).executionDuration = some second from
        rfl)
      (show rootSpan? [rootUntil 7000000000] = some (rootUntil 7000000000) from
        rfl)
      ⟨6000000000, 7000000000, 1000000000⟩
  refine exact_iff.1.mpr ⟨?_, ?_, ?_, ?_, ?_⟩
  · decide +kernel
  · decide +kernel
  · decide +kernel
  · rfl
  · decide +kernel

/-- A difference of a second between two ends that fit 64 bits is not reported if
the request is of the year 2300. -/
theorem drift_unreported :
    let info := secondLong ⟨10413792000, 0, by decide⟩
    let root := rootUntil 10413792000000000000
    rootSpan? [root] = some root ∧
      exactEnd info.requestTime second = 10413792001000000000 ∧
      10413792001000000000 < UInt64.size ∧
      toleranceNanos < distance 10413792001000000000 root.endTime.toNat ∧
      durationMismatch? info [root] = none := by
  refine ⟨rfl, ?_⟩
  decide +kernel

/-! ## The end as an instant -/

/-- Where a difference is reported, the end is an instant, too. The two are the
same in nanoseconds, except that the instant is a second earlier where the
execution leaves a leap second. -/
theorem endTime?_of_mismatch {info : TraceInfo} {spans : List Span}
    {mismatch : DurationMismatch}
    (reported : durationMismatch? info spans = some mismatch) :
    ∃ duration later,
      info.executionDuration = some duration ∧ info.endTime? = some later ∧
        (mismatch.expectedEnd.toNat : Int) =
          later.totalNanos +
            (if info.requestTime.LeavesLeapSecond duration then nanosPerSecond
              else 0 : Nat) := by
  cases isRoot : rootSpan? spans with
  | none =>
      rw [durationMismatch?, isRoot] at reported
      cases reported
  | some root =>
      cases lasted : info.executionDuration with
      | none =>
          rw [durationMismatch?, isRoot, expectedEnd?, lasted] at reported
          cases reported
      | some duration =>
          obtain ⟨fits, _, isExact⟩ := isExact_of_mismatch lasted isRoot reported
          obtain ⟨later, isSum⟩ := Instant.exists_add? fits.1 fits.2.2
          have isEnd : info.endTime? = some later := by
            rw [TraceInfo.endTime?, lasted]
            exact isSum
          refine ⟨duration, later, rfl, isEnd, ?_⟩
          rw [isExact.expectedEnd, exactEnd, Instant.totalNanos_of_add? isSum]

theorem endTime?_of_mismatch_secondLong :
    ∃ duration later,
      (secondLong ⟨1483228799, 0, by decide⟩).executionDuration = some duration ∧
        (secondLong ⟨1483228799, 0, by decide⟩).endTime? = some later ∧
        ((1483228800000000000 : UInt64).toNat : Int) =
          later.totalNanos +
            (if (secondLong ⟨1483228799, 0, by decide⟩).requestTime.LeavesLeapSecond
                duration then nanosPerSecond
              else 0 : Nat) := by
  have reported :
      durationMismatch? (secondLong ⟨1483228799, 0, by decide⟩)
          [rootUntil 1483228801000000000] =
        some ⟨1483228800000000000, 1483228801000000000, 1000000000⟩ := by
    decide +kernel
  exact endTime?_of_mismatch reported

/-- A second after half of the leap second at the end of the year 2016 the
nanoseconds are a whole second ahead of the instant. -/
theorem ends_differ_after_leapSecond :
    let info := secondLong ⟨1483228799, 1500000000, by decide⟩
    durationMismatch? info [rootUntil 1483228800000000000] =
        some ⟨1483228801500000000, 1483228800000000000, 1500000000⟩ ∧
      info.endTime?.map Instant.totalNanos = some 1483228800500000000 := by
  decide +kernel

end Check

end TraceArchive
