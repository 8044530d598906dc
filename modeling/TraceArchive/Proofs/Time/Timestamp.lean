import TraceArchive.Proofs.Time.Calendar
import TraceArchive.Proofs.Time.Duration
import TraceArchive.Time.Timestamp

/-!
# The timestamp of an instant is read as the instant

The parts of the text are read one after another, each whatever follows it.
The main statement is `Instant.ofCharacters?_characters`.
-/

namespace TraceArchive.Instant

/-! ## Numbers -/

/-- Whether no digit is in front. -/
def StartsWithoutDigit (following : List Char) : Prop :=
  ∀ character ∈ following.head?, character.isDigit = false

theorem digitsAtMost_append
    {count : Nat} {digits following : List Char}
    (areDigits : ∀ digit ∈ digits, digit.isDigit = true)
    (atMost : digits.length ≤ count)
    (ends : digits.length = count ∨ StartsWithoutDigit following) :
    digitsAtMost count (digits ++ following) = (digits, following) := by
  induction digits generalizing count with
  | nil =>
      rcases ends with isCount | noDigit
      · have isZero : count = 0 := isCount.symm
        subst isZero
        cases following <;> rfl
      · cases count with
        | zero => cases following <;> rfl
        | succ count =>
            cases following with
            | nil => rfl
            | cons first rest =>
                have notDigit := noDigit first rfl
                simp [digitsAtMost, notDigit]
  | cons digit rest inductionHypothesis =>
      cases count with
      | zero => exact absurd atMost (Nat.not_succ_le_zero _)
      | succ count =>
          have isDigit := areDigits digit List.mem_cons_self
          have others :=
            @inductionHypothesis count
              (fun other member =>
                areDigits other (List.mem_cons_of_mem _ member))
              (Nat.le_of_succ_le_succ atMost)
              (ends.imp_left Nat.succ.inj)
          simp [digitsAtMost, isDigit, others]

theorem number?_append
    {count : Nat} {digits following : List Char}
    (areDigits : ∀ digit ∈ digits, digit.isDigit = true)
    (nonEmpty : digits ≠ []) (atMost : digits.length ≤ count)
    (ends : digits.length = count ∨ StartsWithoutDigit following) :
    number? count (digits ++ following) =
      some (Text.numberOf digits, following) := by
  rw [number?, digitsAtMost_append areDigits atMost ends]
  split
  · rename_i isNothing
    simp only [Prod.mk.injEq] at isNothing
    exact absurd isNothing.1 nonEmpty
  · rename_i isPair
    simp only [Prod.mk.injEq] at isPair
    rw [isPair.1, isPair.2]

theorem padded_ne_nil (width number : Nat) : Text.padded width number ≠ [] :=
  fun isNil =>
    absurd (List.append_eq_nil_iff.mp isNil).2 Nat.toDigits_ne_nil

theorem trimStart_padded (width number : Nat) (following : List Char) :
    Text.trimStart (Text.padded width number ++ following) =
      Text.padded width number ++ following := by
  apply Text.trimStart_of_startsPlain
  intro character isHead
  apply Text.isBlank_of_isDigit
  cases isPadded : Text.padded width number with
  | nil => exact absurd isPadded (padded_ne_nil width number)
  | cons first rest =>
      rw [isPadded] at isHead
      cases isHead
      have member : character ∈ Text.padded width number := by
        rw [isPadded]
        exact List.mem_cons_self
      exact Text.isDigit_of_mem_padded member

theorem bounded?_padded
    {least greatest number : Nat} (small : number < 100)
    (fits : least ≤ number ∧ number ≤ greatest) (following : List Char) :
    bounded? least greatest (Text.padded 2 number ++ following) =
      some (number, following) := by
  have length : (Text.padded 2 number).length = 2 :=
    Text.length_padded (by decide) small
  have read :
      number? 2 (Text.padded 2 number ++ following) =
        some (Text.numberOf (Text.padded 2 number), following) :=
    number?_append (fun _ => Text.isDigit_of_mem_padded)
      (padded_ne_nil 2 number)
      (Nat.le_of_eq length) (.inl length)
  rw [bounded?, trimStart_padded, read, Text.numberOf_padded]
  exact if_pos fits

theorem mark?_cons
    {expected : Char} (plain : Text.isBlank expected = false)
    (following : List Char) :
    mark? expected (expected :: following) = some following := by
  have kept : Text.trimStart (expected :: following) = expected :: following :=
    Text.trimStart_of_startsPlain fun character isHead => by
      cases isHead
      exact plain
  simp only [mark?, kept, if_true]

/-! ## Years and fractions -/

theorem number?_year
    {count year : Nat} {following : List Char}
    (fits :
      (Text.padded 4 year).length = count ∨
        (Text.padded 4 year).length ≤ count ∧
          StartsWithoutDigit following) :
    number? count (Text.padded 4 year ++ following) =
      some (year, following) := by
  have read :
      number? count (Text.padded 4 year ++ following) =
        some (Text.numberOf (Text.padded 4 year), following) :=
    number?_append (fun _ => Text.isDigit_of_mem_padded)
      (padded_ne_nil 4 year)
      (fits.elim Nat.le_of_eq And.left) (fits.imp_right And.right)
  rw [read, Text.numberOf_padded]

theorem year?_of_unsigned
    {year : Nat} (small : year < 10000) (following : List Char) :
    year? (Text.padded 4 year ++ following) = some (↑year, following) := by
  have length : (Text.padded 4 year).length = 4 :=
    Text.length_padded (by decide) small
  have read :
      number? 4 (Text.padded 4 year ++ following) = some (year, following) :=
    number?_year (.inl length)
  have kept := trimStart_padded 4 year following
  rw [year?]
  dsimp only
  rw [kept]
  cases isPadded : Text.padded 4 year with
  | nil => exact absurd isPadded (padded_ne_nil 4 year)
  | cons first rest =>
      have isDigit : first.isDigit = true := by
        have member : first ∈ Text.padded 4 year := by
          rw [isPadded]
          exact List.mem_cons_self
        exact Text.isDigit_of_mem_padded member
      rw [isPadded] at read
      rw [List.cons_append] at read ⊢
      split
      · rename_i isMinus
        cases isMinus
        cases isDigit
      · rename_i isPlus
        cases isPlus
        cases isDigit
      · rw [read]
        rfl

/-- A year is read up to the mark behind it. -/
theorem year?_yearCharacters
    (year : Int) {following : List Char}
    (noDigit : StartsWithoutDigit following) :
    year? (yearCharacters year ++ following) = some (year, following) := by
  have signed :
      number? (Text.padded 4 year.natAbs ++ following).length
          (Text.padded 4 year.natAbs ++ following) =
        some (year.natAbs, following) := by
    apply number?_year
    refine .inr ⟨?_, noDigit⟩
    rw [List.length_append]
    omega
  unfold yearCharacters
  split
  · rename_i unsigned
    have isYear : (year.natAbs : Int) = year := by omega
    rw [year?_of_unsigned (by omega), isYear]
  · by_cases isNegative : year < 0
    · have isYear : -(year.natAbs : Int) = year := by omega
      rw [if_pos isNegative, List.cons_append, year?]
      have kept :
          Text.trimStart ('-' :: (Text.padded 4 year.natAbs ++ following)) =
            '-' :: (Text.padded 4 year.natAbs ++ following) := rfl
      simp only [kept, signed, Option.map_some, isYear]
    · have isYear : (year.natAbs : Int) = year := by omega
      rw [if_neg isNegative, List.cons_append, year?]
      have kept :
          Text.trimStart ('+' :: (Text.padded 4 year.natAbs ++ following)) =
            '+' :: (Text.padded 4 year.natAbs ++ following) := rfl
      simp only [kept, signed, Option.map_some, isYear]

theorem nanos?_fraction
    {nanos : Nat} (small : nanos < nanosPerSecond) :
    nanos? (Duration.fractionCharacters nanos ++ ['Z']) =
      some (nanos, ['Z']) := by
  obtain ⟨digits, isFraction, areDigits, short, isNumber⟩ :=
    Duration.fractionCharacters_eq small
  have noDigit : StartsWithoutDigit ['Z'] := by
    intro character isHead
    cases isHead
    rfl
  have read := digitsAtMost_append areDigits short (.inr noDigit)
  rw [isFraction]
  cases digits with
  | nil =>
      have nothing : nanos = 0 := by
        rw [← isNumber]
        simp [Text.numberOf, Text.numberFrom]
      rw [nothing]
      rfl
  | cons first rest =>
      simp only [List.isEmpty_cons, Bool.false_eq_true, if_false,
        List.cons_append] at read ⊢
      simp only [nanos?, read, isNumber]
      rfl

/-! ## The parts of a timestamp -/

/-- The parts of the text of an instant. -/
def toReading (instant : Instant) : Reading where
  date := instant.date
  hour := instant.secondOfDay / 3600
  minute := instant.secondOfDay / 60 % 60
  second :=
    instant.secondOfDay % 60 + instant.nanos / nanosPerSecond
  nanos := instant.nanos % nanosPerSecond
  offset := 0

theorem cast_secondOfDay (instant : Instant) :
    (instant.secondOfDay : Int) = instant.seconds % 86400 := by
  rw [secondOfDay]
  simp only [secondsPerDay]
  omega

theorem secondOfDay_lt (instant : Instant) : instant.secondOfDay < 86400 := by
  have sameSecond := instant.cast_secondOfDay
  omega

/-- In a leap second the minute has its last second. -/
theorem leap_of_valid (instant : Instant) :
    instant.nanos / nanosPerSecond = 0 ∨
      instant.nanos / nanosPerSecond = 1 ∧ instant.secondOfDay % 60 = 59 := by
  obtain ⟨_, _, small, leap⟩ := instant.valid
  have sameSecond := instant.cast_secondOfDay
  simp only [nanosPerSecond] at small leap ⊢
  omega

/-- A day has 24 hours of 60 minutes; a leap second is the second 60. -/
theorem clock_of_valid (instant : Instant) :
    instant.secondOfDay / 3600 ≤ 23 ∧ instant.secondOfDay / 60 % 60 ≤ 59 ∧
      instant.secondOfDay % 60 + instant.nanos / nanosPerSecond ≤ 60 := by
  have inDay := instant.secondOfDay_lt
  have leap := instant.leap_of_valid
  omega

theorem reading?_characters (instant : Instant) :
    reading? instant.characters = some instant.toReading := by
  have month := Time.month_ofDay (instant.seconds / secondsPerDay + firstDay)
  have day := Time.day_ofDay (instant.seconds / secondsPerDay + firstDay)
  obtain ⟨hour, minute, second⟩ := instant.clock_of_valid
  have fraction :
      nanos? (Duration.fractionCharacters (instant.nanos % nanosPerSecond) ++
          ['Z']) =
        some (instant.nanos % nanosPerSecond, ['Z']) :=
    nanos?_fraction (Nat.mod_lt _ (by decide))
  have zone : offset? (Text.trimStart ['Z']) = some (0, []) := rfl
  have noDigit : ∀ following, StartsWithoutDigit ('-' :: following) := by
    intro following character isHead
    cases isHead
    rfl
  change 1 ≤ instant.date.month ∧ instant.date.month ≤ 12 at month
  change 1 ≤ instant.date.day ∧ instant.date.day ≤ 31 at day
  have dash : Text.isBlank '-' = false := rfl
  have colon : Text.isBlank ':' = false := rfl
  have readMonth := bounded?_padded (by omega) month
  have readDay := bounded?_padded (by omega) day
  have readHour := bounded?_padded (by omega) ⟨Nat.zero_le _, hour⟩
  have readMinute := bounded?_padded (by omega) ⟨Nat.zero_le _, minute⟩
  have readSecond := bounded?_padded (by omega) ⟨Nat.zero_le _, second⟩
  unfold characters
  simp only [List.append_assoc, List.cons_append]
  rw [reading?, year?_yearCharacters _ (noDigit _)]
  dsimp only [bind, Option.bind]
  rw [mark?_cons dash]
  dsimp only
  rw [readMonth]
  dsimp only
  rw [mark?_cons dash]
  dsimp only
  rw [readDay]
  dsimp only
  split
  case h_2 isHead => exact absurd (List.cons.inj isHead).1 (by decide)
  case h_3 isHead => exact absurd (List.cons.inj isHead).1 (by decide)
  case h_4 other _ _ => exact absurd rfl (other _)
  rename_i isHead
  rw [← (List.cons.inj isHead).2, readHour]
  dsimp only
  rw [mark?_cons colon]
  dsimp only
  rw [readMinute]
  dsimp only
  rw [mark?_cons colon]
  dsimp only
  rw [readSecond]
  dsimp only
  rw [fraction]
  dsimp only
  rw [zone]
  rfl

/-- The day and the time of day make up the seconds again. -/
theorem seconds_of_toReading (instant : Instant) :
    (instant.toReading.date.toDay - firstDay) * secondsPerDay +
        ((instant.toReading.hour * 60 + instant.toReading.minute) * 60 +
          min instant.toReading.second 59 : Nat) =
      instant.seconds := by
  have sameDay :
      instant.date.toDay = instant.seconds / secondsPerDay + firstDay :=
    Time.toDay_ofDay _
  have sameSecond := instant.cast_secondOfDay
  have leap := instant.leap_of_valid
  have atMost :
      min (instant.secondOfDay % 60 + instant.nanos / nanosPerSecond) 59 =
        instant.secondOfDay % 60 := by
    omega
  simp only [toReading, sameDay, atMost, secondsPerDay]
  omega

theorem nanos_of_toReading (instant : Instant) :
    instant.toReading.nanos +
        (if instant.toReading.second = 60 then nanosPerSecond else 0) =
      instant.nanos := by
  have parts := Nat.div_add_mod instant.nanos nanosPerSecond
  have isSecond :
      instant.toReading.second =
        instant.secondOfDay % 60 + instant.nanos / nanosPerSecond := rfl
  have isNanos :
      instant.toReading.nanos = instant.nanos % nanosPerSecond := rfl
  rcases instant.leap_of_valid with notLeap | ⟨isLeap, last⟩
  · have notSixty : instant.toReading.second ≠ 60 := by omega
    rw [if_neg notSixty, isNanos]
    rw [notLeap] at parts
    omega
  · have isSixty : instant.toReading.second = 60 := by omega
    rw [if_pos isSixty, isNanos]
    rw [isLeap] at parts
    omega

theorem ofReading?_toReading (instant : Instant) :
    ofReading? instant.toReading = some instant := by
  have sameSeconds := instant.seconds_of_toReading
  have sameNanos := instant.nanos_of_toReading
  have isDate : instant.toReading.date.exists = true := Time.exists_ofDay _
  have noOffset : instant.toReading.offset = 0 := rfl
  have valid := instant.valid
  have allowed :
      instant.toReading.date.exists = true ∧
        instant.toReading.offset.natAbs < 86400 ∧
          firstSecond ≤ instant.seconds ∧ instant.seconds ≤ lastSecond :=
    ⟨isDate, by rw [noOffset]; decide, valid.1, valid.2.1⟩
  rw [ofReading?, sameSeconds, sameNanos, if_pos allowed, noOffset, Int.sub_zero,
    ofParts?, dif_pos valid]

/-- The text of an instant is read as the instant. -/
theorem ofCharacters?_characters (instant : Instant) :
    ofCharacters? instant.characters = some instant := by
  rw [ofCharacters?, reading?_characters, Option.bind_some,
    ofReading?_toReading]

theorem reader_toText (room : Nat) (instant : Instant) :
    reader room (Json.document (.string instant.toText)) = .ok instant := by
  simp only [Json.document, reader, Json.Reader.text, toText,
    String.toList_ofList, ofCharacters?_characters]

end TraceArchive.Instant
