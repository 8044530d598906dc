import Mathlib.Data.List.Induction
import TraceArchive.Proofs.Service.IdSequence

/-!
# Identifiers for any number of callers

Whoever asks a source of identifiers, and in whatever order: each identifier is
the lead of the source followed by the count of those given before, so that none
is given twice and later ones have greater bytes. After the last count the
source is exhausted for good. The main statement is `numbered_of_callers`.
-/

namespace TraceArchive

namespace IdSequence

/-! ## Bytes and numbers -/

theorem toNat_highByte (width number : Nat) :
    (UInt8.ofNat (number / Nat.pow 256 width)).toNat =
      number / 256 ^ width % 256 :=
  UInt8.toNat_ofNat'

/-- Bytes from the highest to the lowest are compared like the numbers. -/
theorem bigEndian_lt_bigEndian
    {width left right : Nat}
    (less : left % 256 ^ width < right % 256 ^ width) :
    bigEndian width left < bigEndian width right := by
  induction width with
  | zero => simp [Nat.mod_one] at less
  | succ width inductionHypothesis =>
      have rightLow : right % 256 ^ width < 256 ^ width :=
        Nat.mod_lt right (Nat.pow_pos (by decide))
      rw [Nat.pow_succ, Nat.mod_mul, Nat.mod_mul] at less
      rw [bigEndian, bigEndian, List.cons_lt_cons_iff, UInt8.lt_iff_toNat_lt,
        ← UInt8.toNat_inj, toNat_highByte, toNat_highByte]
      rcases Nat.lt_trichotomy (left / 256 ^ width % 256)
          (right / 256 ^ width % 256) with high | same | low
      · exact Or.inl high
      · rw [same] at less
        exact
          Or.inr ⟨same, inductionHypothesis (Nat.lt_of_add_lt_add_right less)⟩
      · have atLeast := Nat.mul_le_mul_left (256 ^ width) low
        rw [Nat.mul_succ] at atLeast
        omega

/-- The number that bytes stand for after a number that was read before them. -/
theorem foldl_div (start : Nat) (bytes : List UInt8) :
    bytes.foldl (fun number byte => 256 * number + byte.toNat) start /
        256 ^ bytes.length =
      start := by
  induction bytes generalizing start with
  | nil => exact Nat.div_one start
  | cons byte rest inductionHypothesis =>
      have small : byte.toNat < 256 := byte.toNat_lt
      rw [List.foldl_cons, List.length_cons, Nat.pow_succ,
        ← Nat.div_div_eq_div_mul, inductionHypothesis]
      omega

theorem bigEndian_foldl (start : Nat) (bytes : List UInt8) :
    bigEndian bytes.length
        (bytes.foldl (fun number byte => 256 * number + byte.toNat) start) =
      bytes := by
  induction bytes generalizing start with
  | nil => rfl
  | cons byte rest inductionHypothesis =>
      rw [List.foldl_cons, List.length_cons, bigEndian, inductionHypothesis,
        Nat.pow_eq, foldl_div]
      congr 1
      rw [← UInt8.toNat_inj, UInt8.toNat_ofNat']
      have small : byte.toNat < 256 := byte.toNat_lt
      omega

theorem ofBigEndian_lt (bytes : List UInt8) :
    ofBigEndian bytes < 256 ^ bytes.length := by
  have isZero : ofBigEndian bytes / 256 ^ bytes.length = 0 := foldl_div 0 bytes
  exact (Nat.div_eq_zero_iff_lt (Nat.pow_pos (by decide))).mp isZero

/-- The lead with eight given bytes. -/
def leadOf (bytes : Vector UInt8 8) : UInt64 :=
  UInt64.ofNat (ofBigEndian bytes.toList)

theorem bigEndian_leadOf (bytes : Vector UInt8 8) :
    bigEndian 8 (leadOf bytes).toNat = bytes.toList := by
  have isLong : bytes.toList.length = 8 := bytes.length_toList
  have small : ofBigEndian bytes.toList < 2 ^ 64 := by
    have below := ofBigEndian_lt bytes.toList
    rwa [isLong] at below
  have restored := bigEndian_foldl 0 bytes.toList
  rw [isLong] at restored
  rw [leadOf, UInt64.toNat_ofNat', Nat.mod_eq_of_lt small]
  exact restored

/-- A source either gives the identifier with its next count and goes on, or
stays at the last count. -/
theorem allocate_cases (sequence : IdSequence) :
    (sequence.next.toNat < UInt64.size - 1 ∧
        sequence.allocate.2 =
            .ok (identifier sequence.lead sequence.next) ∧
          sequence.allocate.1.lead = sequence.lead ∧
            sequence.allocate.1.next.toNat = sequence.next.toNat + 1) ∨
      sequence.next.toNat = UInt64.size - 1 ∧
        sequence.allocate = (sequence, .error .exhausted) := by
  have small : sequence.next.toNat < UInt64.size := sequence.next.toNat_lt
  by_cases counts : sequence.next.toNat + 1 < UInt64.size
  · have isNext : (sequence.next + 1).toNat = sequence.next.toNat + 1 :=
      (UInt64.toNat_add _ 1).trans (Nat.mod_eq_of_lt counts)
    rw [allocate, if_pos counts]
    exact Or.inl ⟨by omega, rfl, rfl, isNext⟩
  · rw [allocate, if_neg counts]
    exact Or.inr ⟨by omega, rfl⟩

end IdSequence

/-! ## Callers -/

/-- A source of identifiers with what it answered to whom, the latest last. -/
structure AllocationHistory (Caller : Type) where
  source : IdSequence
  answers : List (Caller × Except AllocationError Identifier)

namespace AllocationHistory

variable {Caller : Type}

/-- The identifiers among some answers. -/
def given (answers : List (Caller × Except AllocationError Identifier)) :
    List Identifier :=
  answers.filterMap fun answer => answer.2.toOption

/-- A source with a lead before its first answer. -/
def start (lead : Vector UInt8 8) : AllocationHistory Caller :=
  ⟨.start (IdSequence.leadOf lead), []⟩

/-- The history after one more caller. -/
def next (history : AllocationHistory Caller) (caller : Caller) :
    AllocationHistory Caller where
  source := history.source.allocate.1
  answers := history.answers ++ [(caller, history.source.allocate.2)]

/-- The history of callers in the order in which they are answered. -/
def ofCallers (lead : Vector UInt8 8) (callers : List Caller) :
    AllocationHistory Caller :=
  callers.foldl next (start lead)

/-- What a source answers that has given a number of identifiers. -/
def numbered (lead : List UInt8) (count : Nat) :
    Except AllocationError Identifier :=
  if count < UInt64.size - 1 then .ok ⟨lead ++ IdSequence.bigEndian 8 count⟩
  else .error .exhausted

@[simp]
theorem ofCallers_concat
    (lead : Vector UInt8 8) (callers : List Caller) (caller : Caller) :
    ofCallers lead (callers ++ [caller]) =
      (ofCallers lead callers).next caller := by
  simp [ofCallers]

theorem given_append
    (earlier later : List (Caller × Except AllocationError Identifier)) :
    given (earlier ++ later) = given earlier ++ given later :=
  List.filterMap_append

/-- What holds of a source and its answers after any callers. -/
structure Counting (lead : Vector UInt8 8)
    (history : AllocationHistory Caller) : Prop where
  sameLead : history.source.lead = IdSequence.leadOf lead
  /-- The next count is the number of identifiers that were given. -/
  nextCount : history.source.next.toNat = (given history.answers).length
  /-- As long as there are counts every answer is an identifier. -/
  total :
    (given history.answers).length =
      min history.answers.length (UInt64.size - 1)
  /-- The identifiers have the counts from zero on. -/
  counts :
    given history.answers =
      (List.range (given history.answers).length).map fun count =>
        ⟨lead.toList ++ IdSequence.bigEndian 8 count⟩
  /-- Each answer is the one after those before it. -/
  inTurn : ∀ earlier caller answer later,
    history.answers = earlier ++ (caller, answer) :: later →
      answer = numbered lead.toList (given earlier).length

namespace Counting

variable {lead : Vector UInt8 8} {history : AllocationHistory Caller}

theorem start :
    Counting lead
      (AllocationHistory.start lead : AllocationHistory Caller) := by
  refine ⟨rfl, rfl, rfl, rfl, ?_⟩
  intro earlier caller answer later split
  exact
    absurd split.symm
      (List.append_ne_nil_of_right_ne_nil _ (List.cons_ne_nil _ _))

/-- The next answer is the one after all that were given. -/
theorem allocate_eq (counting : history.Counting lead) :
    history.source.allocate.2 =
      numbered lead.toList (given history.answers).length := by
  rw [numbered, ← counting.nextCount]
  rcases history.source.allocate_cases with
    ⟨within, isGiven, -⟩ | ⟨isLast, exhausted⟩
  · rw [if_pos within, isGiven, IdSequence.identifier, counting.sameLead,
      IdSequence.bigEndian_leadOf]
  · rw [if_neg (by omega), exhausted]

theorem inTurn_next (counting : history.Counting lead) (caller : Caller) :
    ∀ earlier other answer later,
      (history.next caller).answers = earlier ++ (other, answer) :: later →
        answer = numbered lead.toList (given earlier).length := by
  intro earlier other answer later split
  rcases List.eq_nil_or_concat later with rfl | ⟨between, last, rfl⟩
  · obtain ⟨rfl, isLast⟩ := List.append_inj' split rfl
    cases isLast
    exact counting.allocate_eq
  · rw [List.concat_eq_append, ← List.cons_append, ← List.append_assoc] at split
    exact counting.inTurn earlier other answer between
      (List.append_inj' split rfl).1

/-- One more answer keeps what holds of the answers before. -/
theorem next (counting : history.Counting lead) (caller : Caller) :
    (history.next caller).Counting lead := by
  have inTurn := counting.inTurn_next caller
  have isAnswer := counting.allocate_eq
  have total := counting.total
  have isCount := counting.nextCount
  have longer :
      (history.next caller).answers.length = history.answers.length + 1 :=
    List.length_append
  rcases history.source.allocate_cases with
    ⟨within, isGiven, sameLead, isNext⟩ | ⟨isLast, exhausted⟩
  · rw [isCount] at within
    rw [numbered, if_pos within] at isAnswer
    have added :
        given (history.next caller).answers =
          given history.answers ++
            [⟨lead.toList ++
              IdSequence.bigEndian 8 (given history.answers).length⟩] := by
      rw [AllocationHistory.next, given_append, isAnswer]
      rfl
    have oneMore :
        (given (history.next caller).answers).length =
          (given history.answers).length + 1 := by
      rw [added, List.length_append, List.length_singleton]
    refine ⟨sameLead.trans counting.sameLead, ?_, ?_, ?_, inTurn⟩
    · rw [oneMore, ← isCount]
      exact isNext
    · rw [oneMore, longer]
      omega
    · rw [oneMore, List.range_succ, List.map_append, ← counting.counts, added]
      rfl
  · have unchanged :
        given (history.next caller).answers = given history.answers := by
      rw [AllocationHistory.next, given_append, exhausted]
      exact List.append_nil _
    have sameSource : (history.next caller).source = history.source :=
      congrArg Prod.fst exhausted
    refine ⟨?_, ?_, ?_, ?_, inTurn⟩
    · rw [sameSource, counting.sameLead]
    · rw [sameSource, unchanged, isCount]
    · rw [unchanged, longer]
      omega
    · rw [unchanged]
      exact counting.counts

theorem ofCallers (lead : Vector UInt8 8) (callers : List Caller) :
    (AllocationHistory.ofCallers lead callers).Counting lead := by
  induction callers using List.reverseRecOn with
  | nil => exact start
  | append_singleton earlier caller inductionHypothesis =>
      rw [ofCallers_concat]
      exact inductionHypothesis.next caller

/-! ## What follows from the counts -/

/-- Later identifiers have greater bytes. -/
theorem pairwise_given (counting : history.Counting lead) :
    (given history.answers).Pairwise fun earlier later =>
      earlier.bytes < later.bytes := by
  have few : (given history.answers).length < UInt64.size := by
    rw [← counting.nextCount]
    exact history.source.next.toNat_lt
  rw [counting.counts, List.pairwise_map]
  refine List.pairwise_lt_range.imp_of_mem ?_
  intro count other isCount isOther less
  have small : other < 256 ^ 8 := Nat.lt_trans (List.mem_range.mp isOther) few
  refine List.append_left_lt (IdSequence.bigEndian_lt_bigEndian ?_)
  rw [Nat.mod_eq_of_lt small, Nat.mod_eq_of_lt (Nat.lt_trans less small)]
  exact less

/-- Once a caller got no identifier the source is exhausted for all after it. -/
theorem exhausted_of_error
    (counting : history.Counting lead)
    {earlier later : List (Caller × Except AllocationError Identifier)}
    {caller : Caller} {error : AllocationError}
    (split : history.answers = earlier ++ (caller, .error error) :: later) :
    error = .exhausted ∧ ∀ answer ∈ later, answer.2 = .error .exhausted := by
  have isAnswer := counting.inTurn earlier caller _ later split
  have allGiven : ¬(given earlier).length < UInt64.size - 1 := by
    intro within
    rw [numbered, if_pos within] at isAnswer
    cases isAnswer
  rw [numbered, if_neg allGiven] at isAnswer
  refine ⟨Except.error.inj isAnswer, ?_⟩
  rintro ⟨other, answer⟩ member
  obtain ⟨between, rest, rfl⟩ := List.mem_iff_append.mp member
  have whole :
      history.answers =
        (earlier ++ (caller, .error error) :: between) ++
          (other, answer) :: rest := by
    rw [split, List.append_assoc, List.cons_append]
  have isOther := counting.inTurn _ other answer rest whole
  rw [given_append, List.length_append, numbered, if_neg (by omega)] at isOther
  exact isOther

end Counting

theorem callers_answers (lead : Vector UInt8 8) (callers : List Caller) :
    (ofCallers lead callers).answers.map Prod.fst = callers := by
  induction callers using List.reverseRecOn with
  | nil => rfl
  | append_singleton earlier caller inductionHypothesis =>
      rw [ofCallers_concat, next, List.map_append, inductionHypothesis]
      rfl

/-- Whatever eight bytes lead the identifiers of a source and whoever asks it,
however often and in whatever order: every caller is answered, with the eight
bytes followed by the count of the identifiers that were given before, as long
as this is less than the greatest number of 64 bits. The identifiers are all
different, and later ones have greater bytes. A caller without an identifier is
told that the source is exhausted, and so are all callers after it. The next
count never comes round: it is the number of callers up to the greatest number
of 64 bits, where it stays. -/
theorem numbered_of_callers (lead : Vector UInt8 8) (callers : List Caller) :
    (ofCallers lead callers).answers.map Prod.fst = callers ∧
      (∀ earlier caller answer later,
        (ofCallers lead callers).answers =
            earlier ++ (caller, answer) :: later →
          answer =
            if (given earlier).length < UInt64.size - 1 then
              .ok
                ⟨lead.toList ++
                  IdSequence.bigEndian 8 (given earlier).length⟩
            else .error .exhausted) ∧
      (given (ofCallers lead callers).answers).Nodup ∧
      ((given (ofCallers lead callers).answers).Pairwise
        fun earlier later => earlier.bytes < later.bytes) ∧
      (∀ earlier caller error later,
        (ofCallers lead callers).answers =
            earlier ++ (caller, .error error) :: later →
          error = .exhausted ∧
            ∀ answer ∈ later, answer.2 = .error .exhausted) ∧
      (ofCallers lead callers).source.next.toNat =
          min callers.length (UInt64.size - 1) ∧
        (given (ofCallers lead callers).answers).length =
          (ofCallers lead callers).source.next.toNat := by
  have counting : (ofCallers lead callers).Counting lead :=
    Counting.ofCallers lead callers
  have sameCallers := callers_answers lead callers
  have increasing := counting.pairwise_given
  refine
    ⟨sameCallers, counting.inTurn, ?_, increasing, ?_, ?_,
      counting.nextCount.symm⟩
  · refine increasing.imp ?_
    rintro earlier _ less rfl
    exact List.lt_irrefl _ less
  · intro earlier caller error later split
    exact counting.exhausted_of_error split
  · have sameLength :
        (ofCallers lead callers).answers.length = callers.length := by
      rw [← List.length_map (f := Prod.fst), sameCallers]
    rw [counting.nextCount, counting.total, sameLength]

end AllocationHistory

end TraceArchive
