import TraceArchive.Time.Calendar

/-!
# Days and dates

The date of a day exists and has the number of that day: `Date.toDay_ofDay` and
`Date.exists_ofDay`.
-/

namespace TraceArchive.Time

/-! ## Years -/

/-- The number of days of a year. -/
def daysInYear (leap : Bool) : Nat :=
  if leap then 366 else 365

theorem daysBeforeYear_succ (year : Int) :
    daysBeforeYear (year + 1) =
      daysBeforeYear year + daysInYear (isLeapYear year) := by
  have pastYear : year + 1 - 1 = year := by omega
  have byFour : year / 4 = (year - 1) / 4 + if year % 4 = 0 then 1 else 0 := by
    split <;> omega
  have byHundred :
      year / 100 = (year - 1) / 100 + if year % 100 = 0 then 1 else 0 := by
    split <;> omega
  have byFourHundred :
      year / 400 = (year - 1) / 400 + if year % 400 = 0 then 1 else 0 := by
    split <;> omega
  simp only [daysBeforeYear, daysInYear, isLeapYear, pastYear, byFour,
    byHundred, byFourHundred, Bool.and_eq_true, Bool.or_eq_true, beq_iff_eq,
    bne_iff_ne]
  split <;> split <;> split <;> split <;> omega

/-- The year of a day is the one that the day lies in. -/
theorem day_in_yearOfDay (day : Int) :
    daysBeforeYear (yearOfDay day) ≤ day ∧
      day < daysBeforeYear (yearOfDay day + 1) := by
  unfold yearOfDay
  dsimp only
  split
  · simp only [daysBeforeYear] at *
    omega
  · split
    · simp only [daysBeforeYear] at *
      omega
    · omega

/-! ## Months -/

/-- The days of months in a row. -/
def totalDays (lengths : List Nat) : Nat :=
  lengths.foldr (fun days total => days + total) 0

@[simp]
theorem totalDays_cons (length : Nat) (rest : List Nat) :
    totalDays (length :: rest) = length + totalDays rest :=
  rfl

theorem totalDays_monthLengths (leap : Bool) :
    totalDays (monthLengths leap) = daysInYear leap := by
  cases leap <;> rfl

theorem daysBeforeMonth_eq (leap : Bool) (before : Nat) :
    daysBeforeMonth leap (1 + before) =
      totalDays ((monthLengths leap).take before) := by
  rw [daysBeforeMonth, Nat.add_sub_cancel_left]
  rfl

/-- A day of the year lies in one of the months, after all earlier ones. -/
theorem monthAndDay_spec
    {dayOfYear : Nat} {lengths : List Nat} (month : Nat)
    (inYear : dayOfYear < totalDays lengths) :
    ∃ before < lengths.length,
      (monthAndDay dayOfYear month lengths).1 = month + before ∧
        1 ≤ (monthAndDay dayOfYear month lengths).2 ∧
        (monthAndDay dayOfYear month lengths).2 ≤ lengths.getD before 0 ∧
          totalDays (lengths.take before) +
            (monthAndDay dayOfYear month lengths).2 = dayOfYear + 1 := by
  induction lengths generalizing dayOfYear month with
  | nil => exact absurd inYear (Nat.not_lt_zero _)
  | cons length rest inductionHypothesis =>
      unfold monthAndDay
      split
      · rename_i inMonth
        refine ⟨0, Nat.zero_lt_succ _, rfl, Nat.le_add_left 1 dayOfYear, ?_, ?_⟩
        · exact inMonth
        · simp [totalDays]
      · rename_i notInMonth
        have inRest : dayOfYear - length < totalDays rest := by
          rw [totalDays_cons] at inYear
          omega
        obtain ⟨before, isMonth, named, positive, inMonth, total⟩ :=
          inductionHypothesis (month + 1) inRest
        refine ⟨before + 1, Nat.succ_lt_succ isMonth, ?_, positive, ?_, ?_⟩
        · rw [named]
          omega
        · simpa using inMonth
        · rw [List.take_succ_cons, totalDays_cons]
          omega

/-! ## Dates -/

section OfDay

variable (day : Int)

/-- The date of a day, by the number of months before it in its year. -/
theorem ofDay_spec :
    ∃ before < 12,
      (Date.ofDay day).month = 1 + before ∧ 1 ≤ (Date.ofDay day).day ∧
        (Date.ofDay day).day ≤
            (monthLengths (isLeapYear (Date.ofDay day).year)).getD before 0 ∧
          daysBeforeYear (Date.ofDay day).year +
              totalDays
                ((monthLengths (isLeapYear (Date.ofDay day).year)).take
                  before) +
            (Date.ofDay day).day - 1 = day := by
  obtain ⟨notBefore, notAfter⟩ := day_in_yearOfDay day
  rw [daysBeforeYear_succ] at notAfter
  have inYear :
      (day - daysBeforeYear (yearOfDay day)).toNat <
        totalDays (monthLengths (isLeapYear (yearOfDay day))) := by
    rw [totalDays_monthLengths]
    omega
  obtain ⟨before, isMonth, named, positive, inMonth, total⟩ :=
    monthAndDay_spec 1 inYear
  refine ⟨before, isMonth, named, positive, inMonth, ?_⟩
  simp only [Date.ofDay]
  omega

theorem toDay_ofDay : (Date.ofDay day).toDay = day := by
  obtain ⟨before, _, named, _, _, total⟩ := ofDay_spec day
  rw [Date.toDay, named, daysBeforeMonth_eq]
  exact total

theorem exists_ofDay : (Date.ofDay day).exists = true := by
  obtain ⟨before, _, named, positive, inMonth, _⟩ := ofDay_spec day
  have notZero : ¬ 1 + before = 0 := by omega
  rw [Date.exists, daysInMonth, named, if_neg notZero,
    Nat.add_sub_cancel_left]
  simp only [Bool.and_eq_true, decide_eq_true_eq]
  exact ⟨positive, inMonth⟩

theorem month_ofDay :
    1 ≤ (Date.ofDay day).month ∧ (Date.ofDay day).month ≤ 12 := by
  obtain ⟨before, isMonth, named, _, _, _⟩ := ofDay_spec day
  omega

theorem day_ofDay :
    1 ≤ (Date.ofDay day).day ∧ (Date.ofDay day).day ≤ 31 := by
  obtain ⟨before, isMonth, _, positive, inMonth, _⟩ := ofDay_spec day
  have atMost : ∀ leap, ∀ before < 12,
      (monthLengths leap).getD before 0 ≤ 31 := by
    decide
  exact ⟨positive, Nat.le_trans inMonth (atMost _ before isMonth)⟩

end OfDay

end TraceArchive.Time
