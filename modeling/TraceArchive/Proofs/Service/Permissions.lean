import TraceArchive.Proofs.Service.Commits

/-!
# Permissions

Nothing is written but what the authorizer allowed, and what is submitted to an
experiment only after the catalog found that experiment. Permissions are asked
for by the request itself; what the catalog found may come from the cache, hence
from an earlier request. The main statement is `permitted_of_change`.
-/

namespace TraceArchive

/-! ## Answers that allow a write -/

namespace Exchange

/-- The location to which the authorizer allowed a principal to write. -/
def permitted? : Exchange → Option (TraceLocation × Option String)
  | ⟨.authorize location principal, .answered true⟩ =>
      some (location, principal)
  | _ => none

/-- The experiment that the cache knew. -/
def recalled? : Exchange → Option String
  | ⟨.recallExperiment identifier, true⟩ => some identifier
  | _ => none

end Exchange

/-- What each exchange adds to the permissions and to the experiments that the
cache knew. -/
theorem Knowledge.learn_grants (known : Knowledge) (exchange : Exchange) :
    let later := known.learn exchange.call exchange.answer
    later.permitted = exchange.permitted?.toList ++ known.permitted ∧
      later.recalled = exchange.recalled?.toList ++ known.recalled := by
  obtain ⟨call, answer⟩ := exchange
  cases call with
  | allocateId =>
      rcases answer with identifier | fault | _
      · exact ⟨rfl, rfl⟩
      · exact ⟨rfl, rfl⟩
      · exact ⟨rfl, rfl⟩
  | readTrace id =>
      rcases answer with read | fault | _
      · exact ⟨rfl, rfl⟩
      · exact ⟨rfl, rfl⟩
      · exact ⟨rfl, rfl⟩
  | recallExperiment identifier =>
      cases answer with
      | false => exact ⟨rfl, rfl⟩
      | true => exact ⟨rfl, rfl⟩
  | lookUpExperiment identifier =>
      rcases answer with (_ | _) | fault | _
      · exact ⟨rfl, rfl⟩
      · exact ⟨rfl, rfl⟩
      · exact ⟨rfl, rfl⟩
      · exact ⟨rfl, rfl⟩
  | rememberExperiment identifier => exact ⟨rfl, rfl⟩
  | authorize location principal =>
      rcases answer with (_ | _) | fault | _
      · exact ⟨rfl, rfl⟩
      · exact ⟨rfl, rfl⟩
      · exact ⟨rfl, rfl⟩
      · exact ⟨rfl, rfl⟩
  | createTrace trace =>
      rcases answer with record | fault | _
      · exact ⟨rfl, rfl⟩
      · exact ⟨rfl, rfl⟩
      · exact ⟨rfl, rfl⟩
  | replaceTrace id expected trace =>
      rcases answer with record | fault | _
      · exact ⟨rfl, rfl⟩
      · exact ⟨rfl, rfl⟩
      · exact ⟨rfl, rfl⟩

/-- The cache knew an experiment only if it held it. -/
theorem World.known_of_recalled?
    {world : World} {conditions : Conditions} {deadline : Nat} {call : Call}
    {identifier : String}
    (recalled :
      Exchange.recalled? ⟨call, (world.answer conditions deadline call).2⟩ =
        some identifier) :
    identifier ∈ world.cache.known := by
  cases call with
  | recallExperiment asked =>
      generalize answered :
        (world.answer conditions deadline (.recallExperiment asked)).2 = answer
        at recalled
      cases answer with
      | false => cases recalled
      | true =>
          cases recalled
          exact World.known_of_recalled answered
  | _ => cases recalled

/-- On whose behalf a request is made. Whoever only reads stays unnamed. -/
def Request.principal : Request → Option String
  | .submit principal _ => principal
  | .get _ => none
  | .setTag principal _ _ _ => principal
  | .deleteTag principal _ _ => principal

/-- The trace that a call is to write. -/
def Call.written? : Call → Option Trace
  | .createTrace trace => some trace
  | .replaceTrace _ _ trace => some trace
  | _ => none

/-- A warranted write is permitted at the location of the trace that is to be
written. -/
theorem Request.permitted_of_warrants
    {settings : Settings} {request : Request} {known : Knowledge}
    {call : Call} {trace : Trace}
    (warranted : request.Warrants settings known call)
    (isWrite : call.written? = some trace) :
    (trace.info.location, request.principal) ∈ known.permitted := by
  cases warranted with
  | created grounds _ isResult =>
      cases isWrite
      rw [Submission.location_of_result isResult]
      exact grounds.permitted
  | updated grounds _ _ isResult =>
      cases isWrite
      rw [Submission.location_of_result isResult]
      exact grounds.permitted
  | tagged _ _ _ permitted =>
      cases isWrite
      exact permitted
  | untagged _ _ _ permitted _ =>
      cases isWrite
      exact permitted

/-- The location of a trace that is to be written for a submission is known to
exist. -/
theorem Request.located_of_warrants
    {settings : Settings} {principal : Option String} {message : Wire.Trace}
    {known : Knowledge} {call : Call} {trace : Trace}
    (warranted :
      (Request.submit principal message).Warrants settings known call)
    (isWrite : call.written? = some trace) :
    known.Exists trace.info.location := by
  cases warranted with
  | created grounds _ isResult =>
      cases isWrite
      rw [Submission.location_of_result isResult]
      exact grounds.located
  | updated grounds _ _ isResult =>
      cases isWrite
      rw [Submission.location_of_result isResult]
      exact grounds.located

/-! ## Where permissions come from in a run -/

namespace Traffic

variable {Client : Type} [DecidableEq Client]

/-- Whether the request of a client was allowed to write to a location. -/
def WasPermitted (traffic : Traffic Client) (client : Client)
    (location : TraceLocation) (principal : Option String) : Prop :=
  ∃ event ∈ traffic.history, event.client = client ∧
    event.permitted? = some (location, principal)

/-- Whether the catalog found an experiment, whoever asked. -/
def WasFound (traffic : Traffic Client) (identifier : String) : Prop :=
  ∃ event ∈ traffic.history, event.found? = some identifier

section AfterCall

variable {traffic : Traffic Client} {turn : Turn Client} {call : Call}
  {resume : call.Answer → Program Reply}

theorem WasPermitted.afterCall
    {client : Client} {location : TraceLocation} {principal : Option String}
    (permitted : traffic.WasPermitted client location principal) :
    (traffic.afterCall turn call resume).WasPermitted client location
      principal := by
  obtain ⟨event, member, isClient, isPermitted⟩ := permitted
  refine ⟨event, ?_, isClient, isPermitted⟩
  rw [afterCall_history]
  exact List.mem_append_left _ member

theorem WasFound.afterCall
    {identifier : String} (found : traffic.WasFound identifier) :
    (traffic.afterCall turn call resume).WasFound identifier := by
  obtain ⟨event, member, isFound⟩ := found
  refine ⟨event, ?_, isFound⟩
  rw [afterCall_history]
  exact List.mem_append_left _ member

end AfterCall

/-- Whether all permissions that the clients know were given to them, and all
experiments that they or the cache know were found. -/
structure Vouched (traffic : Traffic Client) : Prop where
  permitted : ∀ client location principal,
    (location, principal) ∈ (traffic.knowledge client).permitted →
      traffic.WasPermitted client location principal
  found : ∀ client, ∀ identifier ∈ (traffic.knowledge client).found,
    traffic.WasFound identifier
  recalled : ∀ client, ∀ identifier ∈ (traffic.knowledge client).recalled,
    traffic.WasFound identifier
  cached : ∀ identifier ∈ traffic.world.cache.known,
    traffic.WasFound identifier

variable {settings : Settings} {requests : Client → Request} {world : World}

/-- One more call keeps everything vouched for, if the cache takes in only what
the catalog has found for the client. -/
theorem Vouched.afterCall
    {traffic : Traffic Client} {turn : Turn Client} {call : Call}
    {resume : call.Answer → Program Reply} (vouched : traffic.Vouched)
    (remembers : ∀ identifier, call = .rememberExperiment identifier →
      identifier ∈ (traffic.knowledge turn.client).found) :
    (traffic.afterCall turn call resume).Vouched := by
  have isLast :
      traffic.event turn call ∈
        (traffic.afterCall turn call resume).history := by
    rw [afterCall_history]
    exact List.mem_append_right _ List.mem_cons_self
  have grants :=
    (traffic.knowledge turn.client).learn_grants
      (traffic.event turn call).toExchange
  refine ⟨?_, ?_, ?_, ?_⟩
  · intro client location principal permitted
    by_cases same : client = turn.client
    · subst same
      rw [knowledge_afterCall_self, grants.1, List.mem_append] at permitted
      rcases permitted with now | before
      · exact ⟨_, isLast, rfl, Option.mem_toList.mp now⟩
      · exact (vouched.permitted _ _ _ before).afterCall
    · rw [knowledge_afterCall_of_ne same] at permitted
      exact (vouched.permitted _ _ _ permitted).afterCall
  · intro client identifier found
    by_cases same : client = turn.client
    · subst same
      rw [knowledge_afterCall_self, Knowledge.learn_found, List.mem_append]
        at found
      rcases found with now | before
      · exact ⟨_, isLast, Option.mem_toList.mp now⟩
      · exact (vouched.found _ _ before).afterCall
    · rw [knowledge_afterCall_of_ne same] at found
      exact (vouched.found _ _ found).afterCall
  · intro client identifier recalled
    by_cases same : client = turn.client
    · subst same
      rw [knowledge_afterCall_self, grants.2, List.mem_append] at recalled
      rcases recalled with now | before
      · have wasKnown :=
          @World.known_of_recalled? (traffic.world.forget turn.forgets) _ _ _ _
            (Option.mem_toList.mp now)
        exact (vouched.cached _ (List.mem_filter.mp wasKnown).1).afterCall
      · exact (vouched.recalled _ _ before).afterCall
    · rw [knowledge_afterCall_of_ne same] at recalled
      exact (vouched.recalled _ _ recalled).afterCall
  · intro identifier cached
    rcases World.known_answer cached with before | remembered
    · exact (vouched.cached _ (List.mem_filter.mp before).1).afterCall
    · exact (vouched.found _ _ (remembers _ remembered)).afterCall

theorem vouched_run (turns : List (Turn Client)) :
    ((start settings requests { world with cache := .empty }).run
      turns).Vouched := by
  refine run_induction Vouched ?_ turns ?_
  · refine ⟨?_, ?_, ?_, ?_⟩
    · intro client location principal permitted
      cases permitted
    · intro client identifier found
      cases found
    · intro client identifier recalled
      cases recalled
    · intro identifier cached
      cases cached
  · intro earlier turn _ call resume _ vouched isNext
    refine vouched.afterCall ?_
    rintro identifier rfl
    exact (demands_next isNext).2

/-! ## Changes of the store -/

/-- A call that changes what is stored under an identifier writes the trace that
is then stored there. -/
theorem written_of_change
    {traffic : Traffic Client} {turn : Turn Client} {call : Call}
    {resume : call.Answer → Program Reply} {id : String}
    (changed :
      (traffic.afterCall turn call resume).world.store.get? id ≠
        traffic.world.store.get? id) :
    ∃ record,
      (traffic.afterCall turn call resume).world.store.get? id =
          some record ∧
        call.written? = some record.trace := by
  cases written : (traffic.event turn call).written? with
  | none => exact absurd (by rw [store_of_not_written written]) changed
  | some record =>
      obtain ⟨_, expected, trace, isCall, accepted, left⟩ :=
        @write_of_written? _ _ _ _ _ resume _ written
      obtain ⟨_, _, isRecord, isPut⟩ := TraceStore.write_of_accepted accepted
      rw [left, isPut] at changed ⊢
      by_cases same : id = record.trace.id
      · refine ⟨record, same ▸ TraceStore.get?_put_self _ record, ?_⟩
        rcases isCall with ⟨rfl, _⟩ | rfl
        · exact isRecord ▸ rfl
        · exact isRecord ▸ rfl
      · exact absurd (TraceStore.get?_put_of_ne _ same) changed

/-- Whatever requests are made and in whatever order their calls are answered:
a turn leaves what is stored under an identifier as it is, or the request of the
client was allowed to write to the location of the trace that is then stored
there, and if that was submitted to an experiment, the catalog has found the
experiment. -/
theorem permitted_of_change
    (settings : Settings) (requests : Client → Request) (world : World)
    (turns : List (Turn Client)) (turn : Turn Client) (id : String) :
    let reached :=
      (start settings requests { world with cache := .empty }).run turns
    let next := reached.advance turn
    next.world.store.get? id = reached.world.store.get? id ∨
      ∃ record, next.world.store.get? id = some record ∧
        reached.WasPermitted turn.client record.trace.info.location
          (requests turn.client).principal ∧
        ∀ principal message identifier,
          requests turn.client = .submit principal message →
            record.trace.info.location = .experiment identifier →
              reached.WasFound identifier := by
  intro reached next
  have vouched : reached.Vouched := vouched_run turns
  by_cases same :
      next.world.store.get? id = reached.world.store.get? id
  · exact Or.inl same
  · refine Or.inr ?_
    cases pending : reached.pending turn.client with
    | done reply =>
        refine absurd ?_ same
        simp only [next, advance, pending]
    | step call resume =>
        have isNext : next = reached.afterCall turn call resume := by
          simp only [next, advance, pending]
        rw [isNext] at same ⊢
        obtain ⟨record, stored, isWrite⟩ := written_of_change same
        have demanded := demands_next pending
        have warranted :
            (requests turn.client).Warrants settings
              (reached.knowledge turn.client) call := by
          cases call with
          | createTrace trace => exact demanded.2
          | replaceTrace id expected trace => exact demanded.2
          | _ => cases isWrite
        refine ⟨record, stored, ?_, ?_⟩
        · exact
            vouched.permitted _ _ _
              (Request.permitted_of_warrants warranted isWrite)
        · intro principal message identifier isSubmission atExperiment
          rw [isSubmission] at warranted
          have located := Request.located_of_warrants warranted isWrite
          rw [atExperiment] at located
          rcases located with recalled | found
          · exact vouched.recalled _ _ recalled
          · exact vouched.found _ _ found

end Traffic

end TraceArchive
