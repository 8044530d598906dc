import TraceArchive.Proofs.Service.Answers

/-!
# Runs of attempts

An attempt that goes on with the value of another one runs as the two do, one
after the other; an attempt that has failed makes no further call.
-/

namespace TraceArchive

variable {conditions : Conditions} {deadline : Nat}

theorem Program.runUntil_andThen
    {Result Next : Type} (program : Program Result)
    (next : Result → Program Next) (world : World) :
    (program.andThen next).runUntil conditions deadline world =
      let (reached, result) := program.runUntil conditions deadline world
      (next result).runUntil conditions deadline reached := by
  induction program generalizing world with
  | done result => rfl
  | step call resume inductionHypothesis =>
      simp only [andThen, runUntil]
      exact inductionHypothesis _ _

namespace Attempt

variable {Value Next : Type} {world : World}

/-- The world and the result that an attempt leads to. -/
def runUntil (attempt : Attempt Value) (conditions : Conditions)
    (deadline : Nat) (world : World) : World × Except ServiceError Value :=
  attempt.run.runUntil conditions deadline world

@[simp]
theorem runUntil_settled (result : Except ServiceError Value) :
    (settled result).runUntil conditions deadline world = (world, result) :=
  rfl

@[simp]
theorem runUntil_pure (value : Value) :
    (pure value : Attempt Value).runUntil conditions deadline world =
      (world, .ok value) :=
  rfl

theorem runUntil_calling
    {call : Call} (settle : call.Answer → Except ServiceError Value) :
    (calling call settle).runUntil conditions deadline world =
      ((world.answer conditions deadline call).1,
        settle (world.answer conditions deadline call).2) :=
  rfl

theorem runUntil_bind
    (attempt : Attempt Value) (next : Value → Attempt Next) :
    (attempt >>= next).runUntil conditions deadline world =
      match attempt.runUntil conditions deadline world with
      | (reached, .ok value) => (next value).runUntil conditions deadline reached
      | (reached, .error error) => (reached, .error error) := by
  unfold runUntil
  rw [ExceptT.run_bind]
  refine (Program.runUntil_andThen _ _ _).trans ?_
  generalize attempt.run.runUntil conditions deadline world = outcome
  obtain ⟨reached, result⟩ := outcome
  cases result with
  | error error => rfl
  | ok value => rfl

/-- What follows an attempt counts only where the attempt leads to. -/
theorem runUntil_bind_congr
    {attempt : Attempt Value} {next other : Value → Attempt Next}
    (same :
      ∀ reached value,
        attempt.runUntil conditions deadline world = (reached, .ok value) →
          (next value).runUntil conditions deadline reached =
            (other value).runUntil conditions deadline reached) :
    (attempt >>= next).runUntil conditions deadline world =
      (attempt >>= other).runUntil conditions deadline world := by
  rw [runUntil_bind, runUntil_bind]
  generalize isOutcome : attempt.runUntil conditions deadline world = outcome
  obtain ⟨reached, result⟩ := outcome
  cases result with
  | error error => rfl
  | ok value => exact same reached value isOutcome

theorem runUntil_require
    {violations : List Violation} {reached : World} {value : Unit}
    (ran :
      (require violations).runUntil conditions deadline world =
        (reached, .ok value)) :
    reached = world := by
  cases violations with
  | nil => exact (Prod.mk.inj ran).1.symm
  | cons first rest => cases (Prod.mk.inj ran).2

end Attempt

end TraceArchive
