import Mathlib.Tactic.Ring
import TraceArchive.Proofs.Identifier
import TraceArchive.Proofs.Service.Knowledge

/-!
# Identifiers that a source gives

The identifiers that a source has given are those with its lead and a count
below the next one. What it gives next is not among them, and whatever the world
is asked, the identifiers that were given before remain so.
-/

namespace TraceArchive

namespace IdSequence

/-! ## Counts -/

theorem foldl_bigEndian (start width number : Nat) :
    (bigEndian width number).foldl
        (fun read byte => 256 * read + byte.toNat) start =
      start * 256 ^ width + number % 256 ^ width := by
  induction width generalizing start with
  | zero => simp [bigEndian, Nat.mod_one]
  | succ width inductionHypothesis =>
      have isDigit :
          (UInt8.ofNat (number / 256 ^ width)).toNat =
            number / 256 ^ width % 256 :=
        UInt8.toNat_ofNat'
      rw [bigEndian, List.foldl_cons, inductionHypothesis, Nat.pow_eq, isDigit,
        Nat.pow_succ, Nat.mod_mul]
      ring

/-- As many bytes as a number has are read as that number. -/
theorem ofBigEndian_bigEndian
    {width number : Nat} (fits : number < 256 ^ width) :
    ofBigEndian (bigEndian width number) = number := by
  rw [ofBigEndian, foldl_bigEndian, Nat.zero_mul, Nat.zero_add,
    Nat.mod_eq_of_lt fits]

/-- Identifiers with one lead have different counts. -/
theorem identifier_injective
    {lead left right : UInt64}
    (same : identifier lead left = identifier lead right) : left = right := by
  have sameBytes : bigEndian 8 left.toNat = bigEndian 8 right.toNat :=
    List.append_cancel_left (congrArg Identifier.bytes same)
  have sameCount := congrArg ofBigEndian sameBytes
  rw [ofBigEndian_bigEndian left.toNat_lt,
    ofBigEndian_bigEndian right.toNat_lt] at sameCount
  exact UInt64.toNat_inj.mp sameCount

/-! ## Given identifiers -/

/-- Whether a source has given an identifier. -/
def Gave (sequence : IdSequence) (given : Identifier) : Prop :=
  ∃ count < sequence.next, given = identifier sequence.lead count

variable {sequence : IdSequence} {given : Identifier}

theorem allocate_of_ok
    (isNext : sequence.allocate.2 = .ok given) :
    given = identifier sequence.lead sequence.next ∧
      sequence.allocate.1.lead = sequence.lead ∧
        sequence.next < sequence.allocate.1.next := by
  unfold allocate at isNext ⊢
  split at isNext
  · rename_i counts
    rw [if_pos counts]
    refine ⟨(Except.ok.inj isNext).symm, rfl, ?_⟩
    have isCount : (sequence.next + 1).toNat = sequence.next.toNat + 1 :=
      (UInt64.toNat_add _ 1).trans (Nat.mod_eq_of_lt counts)
    rw [UInt64.lt_iff_toNat_lt, isCount]
    exact Nat.lt_succ_self _
  · cases isNext

/-- What is given next was not given before. -/
theorem not_gave_of_allocate
    (isNext : sequence.allocate.2 = .ok given) : ¬sequence.Gave given := by
  rintro ⟨count, earlier, isCount⟩
  rw [(allocate_of_ok isNext).1] at isCount
  rw [identifier_injective isCount] at earlier
  exact UInt64.lt_irrefl _ earlier

theorem gave_of_allocate
    (isNext : sequence.allocate.2 = .ok given) :
    sequence.allocate.1.Gave given := by
  obtain ⟨rfl, sameLead, later⟩ := allocate_of_ok isNext
  exact ⟨sequence.next, later, by rw [sameLead]⟩

theorem Gave.allocate
    (gave : sequence.Gave given) : sequence.allocate.1.Gave given := by
  cases isNext : sequence.allocate.2 with
  | error fault =>
      have unchanged : sequence.allocate.1 = sequence := by
        unfold IdSequence.allocate at isNext ⊢
        split at isNext
        · cases isNext
        · rename_i exhausted
          rw [if_neg exhausted]
      rw [unchanged]
      exact gave
  | ok next =>
      obtain ⟨count, earlier, rfl⟩ := gave
      obtain ⟨_, sameLead, later⟩ := allocate_of_ok isNext
      exact ⟨count, UInt64.lt_trans earlier later, by rw [sameLead]⟩

end IdSequence

/-! ## While requests run -/

namespace World

variable {world : World} {conditions : Conditions} {deadline : Nat}
  {call : Call} {identifier : Identifier}

theorem gave_answer
    (gave : world.ids.Gave identifier) (call : Call) :
    (world.answer conditions deadline call).1.ids.Gave identifier := by
  by_cases allocates : call = .allocateId
  · subst allocates
    simp only [answer, allocate]
    split
    · rw [awaited_ids]
      exact gave
    · exact gave.allocate
  · rw [ids_answer call allocates]
    exact gave

theorem gave_of_allocated?
    (allocated :
      Exchange.allocated? ⟨call, (world.answer conditions deadline call).2⟩ =
        some identifier) :
    (world.answer conditions deadline call).1.ids.Gave identifier := by
  cases call with
  | allocateId =>
      generalize answered :
        (world.answer conditions deadline .allocateId).2 = answer
        at allocated
      rcases answer with given | fault | _
      · cases allocated
        have isNext := allocate_of_answered answered
        simp only [World.answer, allocate] at answered ⊢
        split at answered
        · simp [widen_ne_answered] at answered
        · exact IdSequence.gave_of_allocate isNext
      · cases allocated
      · cases allocated
  | _ => cases allocated

end World

end TraceArchive
