import TraceArchive.Proofs.Service.Knowledge
import TraceArchive.Proofs.Service.Submission

/-!
# Commits

A write of a run succeeds only if its client read what is still stored. So each
step of a run leaves the store as it is, or it replaces one record by what the
request of that client makes of it. The main statement is `commit_of_record`.
-/

namespace TraceArchive

/-! ## What a request makes of a stored trace -/

/-- What a request makes of the record that is stored under the identifier of
its trace. -/
inductive Request.Makes (settings : Settings) :
    Request → Option StoredTrace → Trace → Prop
  | created {principal : Option String} {message : Wire.Trace}
      {submission : Submission} {traceId : String} {trace : Trace} :
      submission.Fits settings message traceId →
      submission.result settings none traceId = .ok trace →
      Makes settings (.submit principal message) none trace
  | updated {principal : Option String} {message : Wire.Trace}
      {submission : Submission} {traceId : String} {stored : StoredTrace}
      {trace : Trace} :
      submission.Fits settings message traceId →
      Submission.checkUpdatable stored.trace.info submission.info = .ok () →
      submission.result settings (some stored.trace) traceId = .ok trace →
      Makes settings (.submit principal message) (some stored) trace
  | tagged {principal : Option String} {named given value key : String}
      {stored : StoredTrace} :
      Service.tagKey given = .ok key →
      Makes settings (.setTag principal named given value) (some stored)
        (Service.withTag stored.trace key value)
  | untagged {principal : Option String} {named given key : String}
      {stored : StoredTrace} :
      Service.tagKey given = .ok key →
      stored.trace.info.tags.contains key = true →
      Makes settings (.deleteTag principal named given) (some stored)
        (Service.withoutTag stored.trace key)

theorem Submission.Fits.of_grounds
    {settings : Settings} {principal : Option String} {message : Wire.Trace}
    {known : Knowledge} {submission : Submission} {traceId : String}
    (grounds : known.Grounds settings principal message submission traceId) :
    submission.Fits settings message traceId := by
  refine ⟨grounds.accepted, ?_, grounds.own⟩
  rcases grounds.named with
    told | ⟨untold, sequence, identifier, given, _, same⟩
  · exact Or.inl told
  · exact Or.inr ⟨untold, sequence, identifier, given, same⟩

/-- The version after that of a record, one without a record. -/
def nextVersion : Option StoredTrace → Nat
  | none => 1
  | some record => record.version + 1

theorem TraceStore.after_of_not_written
    (store : TraceStore) {exchange : Exchange}
    (nothing : exchange.written? = none) :
    store.after exchange.call exchange.answer = store := by
  obtain ⟨call, answer⟩ := exchange
  cases call with
  | createTrace trace =>
      rcases answer with record | fault | _
      · cases nothing
      · rfl
      · rfl
  | replaceTrace id expected trace =>
      rcases answer with record | fault | _
      · cases nothing
      · rfl
      · rfl
  | _ => rfl

/-! ## What an answer tells about the store -/

namespace World

variable {world : World} {conditions : Conditions} {deadline : Nat}

theorem get?_of_read?
    {call : Call} {id : String} {found : Option StoredTrace}
    (isRead :
      Exchange.read? ⟨call, (world.answer conditions deadline call).2⟩ =
        some (id, found)) :
    world.store.get? id = found := by
  cases call with
  | readTrace asked =>
      generalize answered :
        (world.answer conditions deadline (.readTrace asked)).2 = answer
        at isRead
      rcases answer with present | fault | _
      · cases isRead
        exact World.read_of_answered answered
      · cases isRead
      · cases isRead
  | _ => cases isRead

theorem allocate_of_allocated?
    {call : Call} {identifier : Identifier}
    (isAllocated :
      Exchange.allocated? ⟨call, (world.answer conditions deadline call).2⟩ =
        some identifier) :
    world.ids.allocate.2 = .ok identifier := by
  cases call with
  | allocateId =>
      generalize answered :
        (world.answer conditions deadline .allocateId).2 = answer
        at isAllocated
      rcases answer with given | fault | _
      · cases isAllocated
        exact World.allocate_of_answered answered
      · cases isAllocated
      · cases isAllocated
  | _ => cases isAllocated

theorem write_of_written?
    {call : Call} {record : StoredTrace}
    (written :
      Exchange.written? ⟨call, (world.answer conditions deadline call).2⟩ =
        some record) :
    ∃ id expected trace,
      (call = .createTrace trace ∧ id = trace.id ∧ expected = 0 ∨
          call = .replaceTrace id expected trace) ∧
        (world.store.write id expected trace).2 = .ok record ∧
          world.store.after call (world.answer conditions deadline call).2 =
            (world.store.write id expected trace).1 := by
  cases call with
  | createTrace trace =>
      refine ⟨trace.id, 0, trace, Or.inl ⟨rfl, rfl, rfl⟩, ?_⟩
      generalize answered :
        (world.answer conditions deadline (.createTrace trace)).2 = answer
        at written ⊢
      rcases answer with present | fault | _
      · cases written
        exact ⟨World.create_of_answered answered, rfl⟩
      · cases written
      · cases written
  | replaceTrace id expected trace =>
      refine ⟨id, expected, trace, Or.inr rfl, ?_⟩
      generalize answered :
        (world.answer conditions deadline
          (.replaceTrace id expected trace)).2 = answer at written ⊢
      rcases answer with present | fault | _
      · cases written
        exact ⟨World.replace_of_answered answered, rfl⟩
      · cases written
      · cases written
  | _ => cases written

end World

/-- The contract of a request admits whatever a world answers. -/
theorem Request.admits_answer
    {settings : Settings} {request : Request} {known : Knowledge}
    {world : World} {conditions : Conditions} {deadline : Nat} (call : Call) :
    (request.contract settings).admits known call
      (world.answer conditions deadline call).2 := by
  cases call with
  | allocateId =>
      generalize answered :
        (world.answer conditions deadline .allocateId).2 = answer
      rcases answer with identifier | fault | _
      · exact ⟨world.ids, World.allocate_of_answered answered⟩
      · trivial
      · trivial
  | _ => trivial

/-- A warranted write that the store accepts is based on what is stored, and
puts what the request makes of it, with the next version. -/
theorem Request.commit_of_warrants
    {settings : Settings} {request : Request} {known : Knowledge}
    {call : Call} {store : TraceStore} {id : String} {expected : Nat}
    {trace : Trace} {record : StoredTrace}
    (warranted : request.Warrants settings known call)
    (isCall :
      call = .createTrace trace ∧ id = trace.id ∧ expected = 0 ∨
        call = .replaceTrace id expected trace)
    (accepted : (store.write id expected trace).2 = .ok record)
    (upToDate :
      ∀ stored, known.reading = some (id, some stored) →
        TraceStore.IsBase stored.version (store.get? id) →
          store.get? id = some stored) :
    let current := store.get? record.trace.id
    known.reading = some (record.trace.id, current) ∧
      request.Makes settings current record.trace ∧
        record.version = nextVersion current ∧
          (store.write id expected trace).1 = store.put record := by
  intro current
  obtain ⟨rfl, isBase, rfl, left⟩ := TraceStore.write_of_accepted accepted
  rcases isCall with ⟨rfl, _, rfl⟩ | rfl
  · have absent : current = none := by
      cases stored : store.get? trace.id with
      | none => exact stored
      | some found => exact absurd rfl (stored ▸ isBase).1
    rw [absent]
    cases warranted with
    | created grounds reading isResult =>
        rw [← Submission.id_of_result isResult] at reading
        exact
          ⟨reading, Request.Makes.created (.of_grounds grounds) isResult, rfl,
            left⟩
  · cases warranted with
    | updated grounds reading updatable isResult =>
        rw [show current = _ from upToDate _ reading isBase]
        exact
          ⟨reading,
            Request.Makes.updated (.of_grounds grounds) updatable isResult,
            rfl, left⟩
    | tagged isTagKey _ reading _ =>
        rw [show current = _ from upToDate _ reading isBase]
        exact ⟨reading, Request.Makes.tagged isTagKey, rfl, left⟩
    | untagged isTagKey _ reading _ present =>
        rw [show current = _ from upToDate _ reading isBase]
        exact ⟨reading, Request.Makes.untagged isTagKey present, rfl, left⟩

/-! ## What the clients know in a run -/

namespace Traffic

variable {Client : Type} [DecidableEq Client]

/-- What a client has learnt so far. -/
def knowledge (traffic : Traffic Client) (client : Client) : Knowledge :=
  (traffic.exchanges client).foldl
    (fun known exchange => known.learn exchange.call exchange.answer) {}

/-- Every call was answered by its world in some turn of its client. -/
theorem answered_of_mem_history
    {traffic : Traffic Client} (unused : traffic.history = [])
    (turns : List (Turn Client)) :
    ∀ event ∈ (traffic.run turns).history, ∃ turn ∈ turns,
      event.client = turn.client ∧
        event.answer =
          (event.world.answer turn.conditions.alone turn.deadline
            event.call).2 := by
  refine run_induction
    (fun reached => ∀ event ∈ reached.history, ∃ turn ∈ turns,
      event.client = turn.client ∧
        event.answer =
          (event.world.answer turn.conditions.alone turn.deadline
            event.call).2)
    (by simp [unused]) turns ?_
  intro earlier turn later call resume split answered _ event member
  rw [afterCall_history, List.mem_append, List.mem_singleton] at member
  rcases member with before | rfl
  · exact answered event before
  · exact ⟨turn, by simp [split], rfl, rfl⟩

variable {settings : Settings} {requests : Client → Request} {world : World}

theorem mem_exchanges
    {traffic : Traffic Client} {client : Client} {exchange : Exchange} :
    exchange ∈ traffic.exchanges client ↔
      ∃ event ∈ traffic.history,
        event.client = client ∧ event.toExchange = exchange := by
  simp [exchanges, and_assoc]

/-- The contract of a request admits all answers of a run. -/
theorem admitsAll_run (turns : List (Turn Client)) (client : Client) :
    ((requests client).contract settings).AdmitsAll {}
      (((start settings requests world).run turns).exchanges client) := by
  intro before exchange after split
  have member :
      exchange ∈
        ((start settings requests world).run turns).exchanges client := by
    simp [split]
  obtain ⟨event, isEvent, _, rfl⟩ := mem_exchanges.mp member
  obtain ⟨turn, _, _, answered⟩ :=
    answered_of_mem_history rfl turns event isEvent
  rw [answered]
  exact Request.admits_answer event.call

/-- In a run every request keeps its contract. -/
theorem keeps_run (turns : List (Turn Client)) (client : Client) :
    Program.Keeps ((requests client).contract settings)
      (Attempt.MayEnd (requests client).MayAnswer Request.MayFail)
      (((start settings requests world).run turns).knowledge client)
      (((start settings requests world).run turns).pending client) :=
  (Attempt.keeps_iff.mp (Request.keeps_attempt (requests client))).along
    (reaches_run settings requests world turns client)
    (admitsAll_run turns client)

/-- The request of a client that is about to make a call keeps its contract. -/
theorem demands_next
    {turns : List (Turn Client)} {client : Client} {call : Call}
    {resume : call.Answer → Program Reply}
    (isNext :
      ((start settings requests world).run turns).pending client =
        .step call resume) :
    ((requests client).contract settings).demands
      (((start settings requests world).run turns).knowledge client) call := by
  have keeps :
      Program.Keeps ((requests client).contract settings)
        (Attempt.MayEnd (requests client).MayAnswer Request.MayFail)
        (((start settings requests world).run turns).knowledge client)
        (((start settings requests world).run turns).pending client) :=
    keeps_run turns client
  rw [isNext, Program.keeps_step] at keeps
  exact keeps.1

theorem knowledge_afterCall_self
    {traffic : Traffic Client} {turn : Turn Client} {call : Call}
    {resume : call.Answer → Program Reply} :
    (traffic.afterCall turn call resume).knowledge turn.client =
      (traffic.knowledge turn.client).learn
        (traffic.event turn call).call (traffic.event turn call).answer := by
  unfold knowledge
  rw [exchanges_afterCall_self, List.foldl_append]
  rfl

theorem knowledge_afterCall_of_ne
    {traffic : Traffic Client} {turn : Turn Client} {call : Call}
    {resume : call.Answer → Program Reply} {client : Client}
    (different : client ≠ turn.client) :
    (traffic.afterCall turn call resume).knowledge client =
      traffic.knowledge client := by
  unfold knowledge
  rw [exchanges_afterCall_of_ne different]

omit [DecidableEq Client] in
theorem stored_of_read?
    {traffic : Traffic Client} {turn : Turn Client} {call : Call}
    {id : String} {found : Option StoredTrace}
    (isRead : (traffic.event turn call).read? = some (id, found)) :
    traffic.world.store.get? id = found :=
  @World.get?_of_read? (traffic.world.forget turn.forgets) _ _ _ _ _ isRead

/-- What a client read was stored when it did so, and since then the store has
only grown. -/
def Informed (traffic : Traffic Client) : Prop :=
  ∀ client id found, (traffic.knowledge client).reading = some (id, found) →
    ∃ earlier : TraceStore,
      earlier.get? id = found ∧ earlier.Grows traffic.world.store

theorem informed_run (turns : List (Turn Client)) :
    Informed ((start settings requests world).run turns) := by
  refine run_induction Informed ?_ turns ?_
  · intro client id found reading
    cases reading
  · intro before turn _ call resume _ informed _ client id found reading
    generalize (start settings requests world).run before = reached
      at informed reading ⊢
    have grows :
        reached.world.store.Grows
          (reached.afterCall turn call resume).world.store := by
      rw [afterCall_store]
      exact TraceStore.grows_after _ _ _
    have fromBefore :
        (reached.knowledge client).reading = some (id, found) →
          ∃ earlier : TraceStore, earlier.get? id = found ∧
            earlier.Grows (reached.afterCall turn call resume).world.store := by
      intro readBefore
      obtain ⟨earlier, wasFound, grown⟩ := informed client id found readBefore
      exact ⟨earlier, wasFound, grown.trans grows⟩
    by_cases same : client = turn.client
    · subst same
      rw [knowledge_afterCall_self, Knowledge.learn_reading] at reading
      rcases Option.or_eq_some_iff.mp reading with isRead | ⟨_, readBefore⟩
      · exact ⟨reached.world.store, stored_of_read? isRead, grows⟩
      · exact fromBefore readBefore
    · rw [knowledge_afterCall_of_ne same] at reading
      exact fromBefore reading

/-- A write that is based on the version that was read finds the record that was
read. -/
theorem stored_of_isBase
    {reached : Traffic Client} (informed : reached.Informed)
    {client : Client} {id : String} {stored : StoredTrace}
    (reading : (reached.knowledge client).reading = some (id, some stored))
    (isBase :
      TraceStore.IsBase stored.version (reached.world.store.get? id)) :
    reached.world.store.get? id = some stored := by
  obtain ⟨earlier, wasStored, grown⟩ :=
    informed client id (some stored) reading
  obtain ⟨current, isCurrent, _⟩ := grown id stored wasStored
  rw [isCurrent] at isBase
  rw [isCurrent, grown.eq_of_version wasStored isCurrent isBase.2]

/-! ## What a step does to the store -/

theorem store_of_not_written
    {traffic : Traffic Client} {turn : Turn Client} {call : Call}
    {resume : call.Answer → Program Reply}
    (nothing : (traffic.event turn call).written? = none) :
    (traffic.afterCall turn call resume).world.store =
      traffic.world.store := by
  rw [afterCall_store]
  exact traffic.world.store.after_of_not_written nothing

theorem write_of_written?
    {traffic : Traffic Client} {turn : Turn Client} {call : Call}
    {resume : call.Answer → Program Reply} {record : StoredTrace}
    (written : (traffic.event turn call).written? = some record) :
    ∃ id expected trace,
      (call = .createTrace trace ∧ id = trace.id ∧ expected = 0 ∨
          call = .replaceTrace id expected trace) ∧
        (traffic.world.store.write id expected trace).2 = .ok record ∧
          (traffic.afterCall turn call resume).world.store =
            (traffic.world.store.write id expected trace).1 := by
  rw [afterCall_store]
  exact
    @World.write_of_written? (traffic.world.forget turn.forgets) _ _ _ _
      written

/-- A write of a run is based on what its client read, which is still stored,
and puts what the request makes of it, with the next version. -/
theorem commit_of_record
    (turns : List (Turn Client)) {turn : Turn Client} {call : Call}
    {resume : call.Answer → Program Reply} {record : StoredTrace}
    (isNext :
      ((start settings requests world).run turns).pending turn.client =
        .step call resume)
    (written :
      (((start settings requests world).run turns).event turn call).written? =
        some record) :
    let reached := (start settings requests world).run turns
    let current := reached.world.store.get? record.trace.id
    (reached.knowledge turn.client).reading =
        some (record.trace.id, current) ∧
      (requests turn.client).Makes settings current record.trace ∧
        record.version = nextVersion current ∧
          (reached.afterCall turn call resume).world.store =
            reached.world.store.put record := by
  intro reached current
  have informed : reached.Informed := informed_run turns
  have warranted :
      (requests turn.client).Warrants settings
        (reached.knowledge turn.client) call :=
    Request.warrants_of_demands (demands_next isNext) written
  obtain ⟨id, expected, trace, isCall, accepted, left⟩ :=
    @write_of_written? _ _ _ _ _ resume _ written
  rw [left]
  exact
    Request.commit_of_warrants warranted isCall accepted
      fun stored reading isBase => stored_of_isBase informed reading isBase

end Traffic

end TraceArchive
