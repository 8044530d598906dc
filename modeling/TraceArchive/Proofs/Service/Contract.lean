import TraceArchive.Service.Program

/-!
# Contracts of programs

A contract follows a program call by call. It tells what a call may be answered
with, what has to hold before a call is made, and what is known afterwards. A
program that keeps a contract does so however its calls are answered, as long as
the contract admits the answers.
-/

namespace TraceArchive

/-- Where an item is in a list with one more item at the end. -/
theorem split_concat
    {Item : Type} {items before after : List Item} {last item : Item}
    (split : items ++ [last] = before ++ item :: after) :
    items = before ∧ last = item ∧ after = [] ∨
      ∃ initial, items = before ++ item :: initial ∧
        after = initial ++ [last] := by
  rcases List.eq_nil_or_concat after with rfl | ⟨initial, end', rfl⟩
  · obtain ⟨rfl, same⟩ := List.append_inj' split rfl
    cases same
    exact Or.inl ⟨rfl, rfl, rfl⟩
  · rw [List.concat_eq_append] at split ⊢
    rw [← List.cons_append, ← List.append_assoc] at split
    obtain ⟨rfl, same⟩ := List.append_inj' split rfl
    cases same
    exact Or.inr ⟨initial, rfl, rfl⟩

/-- A call with its answer. -/
structure Exchange where
  call : Call
  answer : call.Answer

/-- A contract about the calls of a program. The ghost is what is known so
far. -/
structure Contract (Ghost : Type) where
  /-- Whether a call may be answered so. -/
  admits : Ghost → (call : Call) → call.Answer → Prop
  /-- What has to hold when a call is made. -/
  demands : Ghost → Call → Prop
  /-- What is known after an answer. -/
  next : Ghost → (call : Call) → call.Answer → Ghost

namespace Contract

variable {Ghost : Type}

/-- What is known after exchanges. -/
def follow (contract : Contract Ghost) (ghost : Ghost)
    (exchanges : List Exchange) : Ghost :=
  exchanges.foldl
    (fun known exchange => contract.next known exchange.call exchange.answer)
    ghost

/-- Whether every one of some exchanges is admitted after those before it. -/
def AdmitsAll (contract : Contract Ghost) (ghost : Ghost)
    (exchanges : List Exchange) : Prop :=
  ∀ before exchange after, exchanges = before ++ exchange :: after →
    contract.admits (contract.follow ghost before) exchange.call
      exchange.answer

@[simp]
theorem follow_nil (contract : Contract Ghost) (ghost : Ghost) :
    contract.follow ghost [] = ghost :=
  rfl

@[simp]
theorem follow_append
    (contract : Contract Ghost) (ghost : Ghost)
    (before after : List Exchange) :
    contract.follow ghost (before ++ after) =
      contract.follow (contract.follow ghost before) after :=
  List.foldl_append

@[simp]
theorem follow_cons
    (contract : Contract Ghost) (ghost : Ghost) (exchange : Exchange)
    (after : List Exchange) :
    contract.follow ghost (exchange :: after) =
      contract.follow (contract.next ghost exchange.call exchange.answer)
        after :=
  rfl

theorem AdmitsAll.of_append
    {contract : Contract Ghost} {ghost : Ghost} {before after : List Exchange}
    (admitted : contract.AdmitsAll ghost (before ++ after)) :
    contract.AdmitsAll ghost before := by
  intro earlier exchange later split
  exact admitted earlier exchange (later ++ after) (by simp [split])

theorem AdmitsAll.nil {contract : Contract Ghost} {ghost : Ghost} :
    contract.AdmitsAll ghost [] := by
  intro before exchange after split
  simp at split

theorem AdmitsAll.concat
    {contract : Contract Ghost} {ghost : Ghost} {exchanges : List Exchange}
    {last : Exchange} (admitted : contract.AdmitsAll ghost exchanges)
    (admitsLast :
      contract.admits (contract.follow ghost exchanges) last.call
        last.answer) :
    contract.AdmitsAll ghost (exchanges ++ [last]) := by
  intro before exchange after split
  rcases split_concat split with
    ⟨rfl, rfl, _⟩ | ⟨initial, earlier, _⟩
  · exact admitsLast
  · exact admitted before exchange initial earlier

end Contract

/-! ## Programs that keep a contract -/

namespace Program

variable {Ghost Result Next : Type}

/-- Whether a program keeps a contract from what is known on, and ends as it
should. -/
def Keeps (contract : Contract Ghost) (ends : Ghost → Result → Prop) :
    Ghost → Program Result → Prop
  | ghost, .done result => ends ghost result
  | ghost, .step call resume =>
      contract.demands ghost call ∧
        ∀ answer, contract.admits ghost call answer →
          Keeps contract ends (contract.next ghost call answer)
            (resume answer)

section Rules

variable {contract : Contract Ghost} {ends : Ghost → Result → Prop}
  {ghost : Ghost}

@[simp]
theorem keeps_done {result : Result} :
    Keeps contract ends ghost (.done result) ↔ ends ghost result :=
  Iff.rfl

@[simp]
theorem keeps_step {call : Call} {resume : call.Answer → Program Result} :
    Keeps contract ends ghost (.step call resume) ↔
      contract.demands ghost call ∧
        ∀ answer, contract.admits ghost call answer →
          Keeps contract ends (contract.next ghost call answer)
            (resume answer) :=
  Iff.rfl

end Rules

-- The rules above are all that is needed; otherwise a program with unknown
-- texts would be run far enough to get stuck in their characters.
attribute [irreducible] Keeps

theorem keeps_andThen
    {contract : Contract Ghost} {ends : Ghost → Next → Prop} {ghost : Ghost}
    {program : Program Result} {next : Result → Program Next} :
    Keeps contract ends ghost (program.andThen next) ↔
      Keeps contract
        (fun known result => Keeps contract ends known (next result))
        ghost program := by
  induction program generalizing ghost with
  | done result => simp only [andThen, keeps_done]
  | step call resume inductionHypothesis =>
      simp only [andThen, keeps_step, inductionHypothesis]

theorem Keeps.imp
    {contract : Contract Ghost} {ends weaker : Ghost → Result → Prop}
    {ghost : Ghost} {program : Program Result}
    (keeps : Keeps contract ends ghost program)
    (weaken : ∀ known result, ends known result → weaker known result) :
    Keeps contract weaker ghost program := by
  induction program generalizing ghost with
  | done result =>
      rw [keeps_done] at keeps ⊢
      exact weaken ghost result keeps
  | step call resume inductionHypothesis =>
      rw [keeps_step] at keeps ⊢
      exact ⟨keeps.1, fun answer admitted =>
        inductionHypothesis answer (keeps.2 answer admitted)⟩

/-! ## What is left of a program -/

/-- What is left of a program after exchanges. -/
inductive Reaches (program : Program Result) :
    List Exchange → Program Result → Prop
  | start : Reaches program [] program
  | answered {exchanges : List Exchange} {call : Call}
      {resume : call.Answer → Program Result} (answer : call.Answer) :
      Reaches program exchanges (.step call resume) →
      Reaches program (exchanges ++ [⟨call, answer⟩]) (resume answer)

/-- A program that keeps a contract still does so after exchanges. -/
theorem Keeps.along
    {contract : Contract Ghost} {ends : Ghost → Result → Prop} {ghost : Ghost}
    {program reached : Program Result} {exchanges : List Exchange}
    (keeps : Keeps contract ends ghost program)
    (reaches : Reaches program exchanges reached)
    (admitted : contract.AdmitsAll ghost exchanges) :
    Keeps contract ends (contract.follow ghost exchanges) reached := by
  induction reaches with
  | start => exact keeps
  | @answered exchanges call resume answer earlier inductionHypothesis =>
      have keepsEarlier := inductionHypothesis admitted.of_append
      have admittedLast := admitted exchanges ⟨call, answer⟩ [] rfl
      simpa using (keeps_step.mp keepsEarlier).2 answer admittedLast

end Program

/-! ## Attempts that keep a contract -/

namespace Attempt

variable {Ghost Value Next : Type}

/-- Whether an attempt may end so, given what is known. -/
def MayEnd (ok : Ghost → Value → Prop) (fails : Ghost → ServiceError → Prop)
    (known : Ghost) : Except ServiceError Value → Prop
  | .error error => fails known error
  | .ok value => ok known value

section MayEnd

variable {ok : Ghost → Value → Prop} {fails : Ghost → ServiceError → Prop}
  {known : Ghost}

@[simp]
theorem mayEnd_error {error : ServiceError} :
    MayEnd ok fails known (.error error) ↔ fails known error :=
  Iff.rfl

@[simp]
theorem mayEnd_ok {value : Value} :
    MayEnd ok fails known (.ok value) ↔ ok known value :=
  Iff.rfl

end MayEnd

/-- Whether an attempt keeps a contract and ends well or badly as it should. -/
@[irreducible]
def Keeps (contract : Contract Ghost) (ok : Ghost → Value → Prop)
    (fails : Ghost → ServiceError → Prop) (ghost : Ghost)
    (attempt : Attempt Value) : Prop :=
  Program.Keeps contract (MayEnd ok fails) ghost attempt.run

variable {contract : Contract Ghost} {ghost : Ghost}
  {fails : Ghost → ServiceError → Prop}

theorem keeps_iff {ok : Ghost → Value → Prop} {attempt : Attempt Value} :
    Keeps contract ok fails ghost attempt ↔
      Program.Keeps contract (MayEnd ok fails) ghost attempt.run := by
  unfold Keeps
  exact Iff.rfl

@[simp]
theorem keeps_bind
    {ok : Ghost → Next → Prop} {attempt : Attempt Value}
    {next : Value → Attempt Next} :
    Keeps contract ok fails ghost (attempt >>= next) ↔
      Keeps contract
        (fun known value => Keeps contract ok fails known (next value)) fails
        ghost attempt := by
  unfold Keeps
  refine Program.keeps_andThen.trans (iff_of_eq ?_)
  congr 1
  funext known result
  cases result with
  | error error => exact propext Program.keeps_done
  | ok value => rfl

@[simp]
theorem keeps_pure {ok : Ghost → Value → Prop} {value : Value} :
    Keeps contract ok fails ghost (pure value) ↔ ok ghost value := by
  unfold Keeps
  exact Program.keeps_done

@[simp]
theorem keeps_settled
    {ok : Ghost → Value → Prop} {result : Except ServiceError Value} :
    Keeps contract ok fails ghost (settled result) ↔
      (∀ value, result = .ok value → ok ghost value) ∧
        ∀ error, result = .error error → fails ghost error := by
  cases result <;> simp [Keeps, settled, ExceptT.run_mk]

theorem keeps_require
    {ok : Ghost → Unit → Prop} {violations : List Violation} :
    Keeps contract ok fails ghost (require violations) ↔
      (violations = [] → ok ghost ()) ∧
        (violations ≠ [] → fails ghost (.rejected violations)) := by
  cases violations with
  | nil =>
      have unit : (∀ value : Unit, ok ghost value) ↔ ok ghost () :=
        ⟨fun all => all (), fun here _ => here⟩
      simpa [require] using unit
  | cons first rest => simp [require]

theorem keeps_calling
    {ok : Ghost → Value → Prop} {call : Call}
    {settle : call.Answer → Except ServiceError Value} :
    Keeps contract ok fails ghost (calling call settle) ↔
      contract.demands ghost call ∧
        ∀ answer, contract.admits ghost call answer →
          MayEnd ok fails (contract.next ghost call answer)
            (settle answer) := by
  unfold Keeps
  simp only [calling, ExceptT.run_mk, Program.keeps_step, Program.keeps_done]

theorem Keeps.imp
    {ok weaker : Ghost → Value → Prop}
    {weakerFails : Ghost → ServiceError → Prop} {attempt : Attempt Value}
    (keeps : Keeps contract ok fails ghost attempt)
    (weaken : ∀ known value, ok known value → weaker known value)
    (weakenFails :
      ∀ known error, fails known error → weakerFails known error) :
    Keeps contract weaker weakerFails ghost attempt := by
  rw [keeps_iff] at keeps ⊢
  refine keeps.imp ?_
  intro known result ended
  cases result with
  | error error => exact weakenFails known error ended
  | ok value => exact weaken known value ended

/-! ### Attempts with one result -/

/-- Whether an attempt that keeps a contract ends with this result, and with what
is known as it should be. -/
def EndsIn (contract : Contract Ghost) (ends : Ghost → Prop)
    (result : Except ServiceError Value) (ghost : Ghost)
    (attempt : Attempt Value) : Prop :=
  Keeps contract (fun known value => ends known ∧ .ok value = result)
    (fun known error => ends known ∧ .error error = result) ghost attempt

theorem endsIn_settled
    {ends : Ghost → Prop} {result : Except ServiceError Value}
    (ended : ends ghost) : EndsIn contract ends result ghost (settled result) := by
  unfold EndsIn
  rw [keeps_settled]
  exact
    ⟨fun value isValue => ⟨ended, isValue.symm⟩,
      fun error isError => ⟨ended, isError.symm⟩⟩

/-- A call that only one answer is admitted to has one result. -/
theorem endsIn_calling
    {ends : Ghost → Prop} {call : Call} {answer : call.Answer}
    {settle : call.Answer → Except ServiceError Value}
    (demanded : contract.demands ghost call)
    (determined :
      ∀ given, contract.admits ghost call given → given = answer)
    (ended : ends (contract.next ghost call answer)) :
    EndsIn contract ends (settle answer) ghost (calling call settle) := by
  unfold EndsIn
  rw [keeps_calling]
  refine ⟨demanded, ?_⟩
  intro given admitted
  rw [determined given admitted]
  cases settle answer with
  | error error => exact ⟨ended, rfl⟩
  | ok value => exact ⟨ended, rfl⟩

/-- What goes on after an attempt with one result depends on that result
alone. -/
theorem endsIn_bind
    {between ends : Ghost → Prop} {result : Except ServiceError Value}
    {attempt : Attempt Value} {next : Value → Attempt Next}
    (follow : Value → Except ServiceError Next)
    (first : EndsIn contract between result ghost attempt)
    (second :
      ∀ value known, result = .ok value → between known →
        EndsIn contract ends (follow value) known (next value))
    (failed :
      ∀ error known, result = .error error → between known → ends known) :
    EndsIn contract ends (result >>= follow) ghost (attempt >>= next) := by
  unfold EndsIn
  rw [keeps_bind]
  refine Keeps.imp first ?_ ?_
  · rintro known value ⟨reached, rfl⟩
    exact second value known rfl reached
  · rintro known error ⟨reached, rfl⟩
    exact ⟨failed error known rfl reached, rfl⟩

end Attempt

end TraceArchive
