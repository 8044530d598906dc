import TraceArchive.Proofs.Service.CommitOrder
import TraceArchive.Proofs.Service.Replay

/-!
# Serializability

However the calls of requests interleave, the store and the answers are those of
running the requests that succeed one after another, each in the place of its
commit. The main statement is `serializable`.
-/

namespace TraceArchive

/-! ## One request after another -/

section Serially

variable {Client : Type}

/-- Runs the requests of clients one after another, each alone and to its end
and with a source of identifiers of its own, and collects the replies. -/
def serially (settings : Settings) (requests : Client → Request)
    (sources : Client → IdSequence) (conditions : Conditions) (timeout : Nat) :
    List Client → World → World × List Reply
  | [], world => (world, [])
  | client :: rest, world =>
      let (next, reply) :=
        ((requests client).attempt settings).run.runWithin conditions timeout
          { world with ids := sources client }
      let (last, replies) :=
        serially settings requests sources conditions timeout rest next
      (last, reply :: replies)

theorem serially_concat
    {settings : Settings} {requests : Client → Request}
    {sources : Client → IdSequence} {conditions : Conditions} {timeout : Nat}
    {earlier : List Client} {client : Client} {world between after : World}
    {replies : List Reply} {reply : Reply}
    (first :
      serially settings requests sources conditions timeout earlier world =
        (between, replies))
    (last :
      ((requests client).attempt settings).run.runWithin conditions timeout
          { between with ids := sources client } =
        (after, reply)) :
    serially settings requests sources conditions timeout
        (earlier ++ [client]) world =
      (after, replies ++ [reply]) := by
  induction earlier generalizing world replies with
  | nil =>
      cases first
      simp only [List.nil_append, serially, last]
  | cons head rest inductionHypothesis =>
      simp only [serially, Prod.mk.injEq] at first
      obtain ⟨isBetween, rfl⟩ := first
      simp only [List.cons_append, serially]
      rw [inductionHypothesis (Prod.ext isBetween rfl)]

end Serially

namespace Traffic

variable {Client : Type} [DecidableEq Client] {settings : Settings}
  {requests : Client → Request} {world : World} {steady : Steady}

/-! ## Requests that succeed, alone -/

theorem admits_of_written
    {steady : Steady} {session : Session} {exchange : Exchange}
    {record : StoredTrace} (written : exchange.written? = some record)
    {id : String} {expected : Nat} {trace : Trace}
    (isCall :
      exchange.call = .createTrace trace ∧ id = trace.id ∧ expected = 0 ∨
        exchange.call = .replaceTrace id expected trace)
    (accepted : (session.store.write id expected trace).2 = .ok record) :
    steady.contract.admits session exchange.call exchange.answer := by
  obtain ⟨call, answer⟩ := exchange
  dsimp only at isCall
  rcases isCall with ⟨rfl, rfl, rfl⟩ | rfl
  · rcases answer with given | fault | _
    · cases written
      change Outcome.answered record =
        .ofExcept (session.store.write trace.id 0 trace).2
      rw [accepted]
      rfl
    · cases written
    · cases written
  · rcases answer with given | fault | _
    · cases written
      change Outcome.answered record =
        .ofExcept (session.store.write id expected trace).2
      rw [accepted]
      rfl
    · cases written
    · cases written

/-- At its write a request has got the answers that it gets alone then. -/
theorem admitted_of_written
    (confirms : steady.Confirms world.cache) (earlier : List (Turn Client))
    (answers : ∀ turn ∈ earlier, steady.Answers turn.conditions)
    {turn : Turn Client} {call : Call} {resume : call.Answer → Program Reply}
    {record : StoredTrace}
    (isNext :
      ((start settings requests world).run earlier).pending turn.client =
        .step call resume)
    (written :
      (((start settings requests world).run earlier).event turn
        call).written? = some record)
    {ids : IdSequence}
    (sameIds :
      ∀ identifier,
        (((start settings requests world).run earlier).knowledge
            turn.client).allocated = some identifier →
          ids.allocate.2 = .ok identifier) :
    let reached := (start settings requests world).run earlier
    let next := reached.afterCall turn call resume
    steady.contract.AdmitsAll ⟨reached.world.store, ids⟩
        (next.exchanges turn.client) ∧
      (steady.contract.follow ⟨reached.world.store, ids⟩
        (next.exchanges turn.client)).store = next.world.store := by
  intro reached next
  obtain ⟨reading, _⟩ := commit_of_record earlier isNext written
  have holds :
      (reached.knowledge turn.client).HoldsIn ⟨reached.world.store, ids⟩ := by
    refine ⟨?_, sameIds⟩
    intro id found isFound
    rw [reading] at isFound
    cases isFound
    rfl
  obtain ⟨admitted, sameStore, _⟩ :=
    replays_run confirms earlier answers turn.client (demands_next isNext).1
      ⟨reached.world.store, ids⟩ holds
  obtain ⟨id, expected, trace, isCall, accepted, _⟩ :=
    @write_of_written? _ _ _ _ _ resume _ written
  rw [exchanges_afterCall_self]
  refine ⟨admitted.concat (admits_of_written written isCall ?_), ?_⟩
  · rw [sameStore]
    exact accepted
  · rw [Contract.follow_append]
    change TraceStore.after (Session.store _) call _ = next.world.store
    rw [sameStore, afterCall_store]

/-- A request that writes does the same if it runs alone then. -/
theorem alone_of_written
    (confirms : steady.Confirms world.cache) (earlier : List (Turn Client))
    (answers : ∀ turn ∈ earlier, steady.Answers turn.conditions)
    {turn : Turn Client} {call : Call} {resume : call.Answer → Program Reply}
    {record : StoredTrace}
    (isNext :
      ((start settings requests world).run earlier).pending turn.client =
        .step call resume)
    (written :
      (((start settings requests world).run earlier).event turn
        call).written? = some record)
    {ids : IdSequence}
    (sameIds :
      ∀ identifier,
        (((start settings requests world).run earlier).knowledge
            turn.client).allocated = some identifier →
          ids.allocate.2 = .ok identifier)
    {serial : World}
    (sameStore :
      serial.store = ((start settings requests world).run earlier).world.store)
    (confirmsSerial : steady.Confirms serial.cache) (deadline : Nat) :
    let next :=
      ((start settings requests world).run earlier).afterCall turn call resume
    steady.RunsTo ((requests turn.client).attempt settings).run deadline
      { serial with ids } next.world.store (.ok record.trace) := by
  intro next
  obtain ⟨admitted, left⟩ :=
    @admitted_of_written _ _ _ _ _ _ confirms earlier answers _ _ resume _
      isNext written ids sameIds
  rw [← sameStore] at admitted left
  have isRun :
      (start settings requests world).run (earlier ++ [turn]) = next :=
    run_split isNext
  have reaches :=
    reaches_run settings requests world (earlier ++ [turn]) turn.client
  rw [isRun, done_of_written isNext written] at reaches
  rw [← left]
  exact
    @Steady.runsTo_of_exchanges _ _ _
      (Steady.settles_attempt settings (requests turn.client)) _ _ reaches
      { serial with ids } admitted confirmsSerial deadline

/-- A request that succeeds without a write has the same answer if it runs alone
when what it read is stored, and it leaves the store as it is. -/
theorem alone_of_read
    (confirms : steady.Confirms world.cache) (turns : List (Turn Client))
    (answers : ∀ turn ∈ turns, steady.Answers turn.conditions)
    {client : Client} {trace : Trace}
    (isOver :
      ((start settings requests world).run turns).pending client =
        .done (.ok trace))
    (unwritten :
      ((start settings requests world).run turns).hasWritten client = false)
    {serial : World}
    (holds :
      (((start settings requests world).run turns).knowledge client).HoldsIn
        ⟨serial.store, serial.ids⟩)
    (confirmsSerial : steady.Confirms serial.cache) (deadline : Nat) :
    steady.RunsTo ((requests client).attempt settings).run deadline serial
      serial.store (.ok trace) := by
  obtain ⟨underway, _⟩ :=
    read_of_succeeded turns isOver
      ((accounts_run turns client).unwritten unwritten)
  obtain ⟨admitted, sameStore, _⟩ :=
    replays_run confirms turns answers client underway _ holds
  have reaches := reaches_run settings requests world turns client
  rw [isOver] at reaches
  have runs :=
    Steady.runsTo_of_exchanges
      (Steady.settles_attempt settings (requests client)) reaches admitted
      confirmsSerial deadline
  rw [sameStore] at runs
  exact runs

/-! ## The run and its commits one after another -/

/-- Whether the requests with a commit so far, one after another, leave the
store that the run has and give the replies that it gives in the end. -/
structure Mirrors (settings : Settings) (requests : Client → Request)
    (sources : Client → IdSequence) (steady : Steady) (timeout : Nat)
    (world : World) (final reached : Traffic Client)
    (serial : World × List Reply) : Prop where
  run : serially settings requests sources steady.conditions timeout
    (final.committed reached.history) world = serial
  store : serial.1.store = reached.world.store
  cache : steady.Confirms serial.1.cache
  replies : serial.2.map some =
    (final.committed reached.history).map final.reply?

omit [DecidableEq Client] in
theorem reply?_of_done
    {traffic : Traffic Client} {client : Client} {reply : Reply}
    (isOver : traffic.pending client = .done reply) :
    traffic.reply? client = some reply := by
  unfold reply?
  rw [isOver]

section Steps

variable {sources : Client → IdSequence} {timeout : Nat}
  {earlier later : List (Turn Client)} {turn : Turn Client} {call : Call}
  {resume : call.Answer → Program Reply}

/-- A request alone in the place of its commit does what the commit does and
has the reply that it has in the run. -/
theorem alone_of_isCommit
    (confirms : steady.Confirms world.cache)
    (answers :
      ∀ next ∈ earlier ++ turn :: later, steady.Answers next.conditions)
    (sameIds :
      ∀ client, ∀ identifier ∈
        ((start settings requests world).run
          (earlier ++ turn :: later)).allocations client,
        (sources client).allocate.2 = .ok identifier)
    (isNext :
      ((start settings requests world).run earlier).pending turn.client =
        .step call resume)
    (isCommit :
      ((start settings requests world).run
        (earlier ++ turn :: later)).isCommit
          (((start settings requests world).run earlier).event turn call) =
        true)
    {serial : World}
    (sameStore :
      serial.store = ((start settings requests world).run earlier).world.store)
    (confirmsSerial : steady.Confirms serial.cache) (deadline : Nat) :
    let reached := (start settings requests world).run earlier
    ∃ reply,
      ((start settings requests world).run
          (earlier ++ turn :: later)).pending turn.client = .done reply ∧
        steady.RunsTo ((requests turn.client).attempt settings).run deadline
          { serial with ids := sources turn.client }
          (reached.afterCall turn call resume).world.store reply := by
  intro reached
  have split :
      (start settings requests world).run (earlier ++ turn :: later) =
        (reached.afterCall turn call resume).run later :=
    run_split isNext
  cases written : (reached.event turn call).written? with
  | some record =>
      refine ⟨.ok record.trace, ?_, ?_⟩
      · rw [split]
        exact run_of_done (done_of_written isNext written) later
      · refine
          alone_of_written confirms earlier
            (fun next member => answers next (by simp [member])) isNext
            written ?_ sameStore confirmsSerial deadline
        intro identifier allocated
        have before : identifier ∈ reached.allocations turn.client :=
          (accounts_run earlier turn.client).allocated identifier allocated
        have extends' := exchanges_run reached (turn :: later) turn.client
        rw [← run_append] at extends'
        exact
          sameIds turn.client identifier
            ((extends'.filterMap _).subset before)
  | none =>
      -- This call is the read, so what the client knows at its end is stored
      -- here, and the whole request can be placed here.
      obtain ⟨succeeded, commits⟩ := isCommit_iff.mp isCommit
      obtain ⟨trace, isOver⟩ := succeeded_iff.mp succeeded
      rcases commits with
        ⟨_, record, isRecord⟩ | ⟨unwritten, reading, isRead⟩
      · cases written.symm.trans isRecord
      · refine ⟨.ok trace, isOver, ?_⟩
        rw [store_of_not_written written, ← sameStore]
        have isReading :=
          (recalls_run (earlier ++ turn :: later) _
            (event_mem_history isNext)).read _ isRead
        refine
          @alone_of_read _ _ _ _ _ _ confirms _ answers turn.client trace
            isOver unwritten { serial with ids := sources turn.client }
            ⟨?_, ?_⟩ confirmsSerial deadline
        · intro id found isFound
          cases isReading.symm.trans isFound
          change serial.store.get? id = found
          rw [sameStore]
          exact stored_of_read? isRead
        · intro identifier allocated
          exact
            sameIds turn.client identifier
              ((accounts_run _ turn.client).allocated identifier allocated)

/-- What the run does in a turn its commits do as well, one after another. -/
theorem mirrors_afterCall
    (confirms : steady.Confirms world.cache)
    (answers :
      ∀ next ∈ earlier ++ turn :: later, steady.Answers next.conditions)
    (sameIds :
      ∀ client, ∀ identifier ∈
        ((start settings requests world).run
          (earlier ++ turn :: later)).allocations client,
        (sources client).allocate.2 = .ok identifier)
    (isNext :
      ((start settings requests world).run earlier).pending turn.client =
        .step call resume)
    {serial : World × List Reply}
    (mirrors :
      Mirrors settings requests sources steady timeout world
        ((start settings requests world).run (earlier ++ turn :: later))
        ((start settings requests world).run earlier) serial) :
    ∃ next,
      Mirrors settings requests sources steady timeout world
        ((start settings requests world).run (earlier ++ turn :: later))
        (((start settings requests world).run earlier).afterCall turn call
          resume) next := by
  cases isCommit :
      ((start settings requests world).run
        (earlier ++ turn :: later)).isCommit
          (((start settings requests world).run earlier).event turn call) with
  | true =>
      obtain ⟨reply, isOver, runs⟩ :=
        alone_of_isCommit confirms answers sameIds isNext isCommit
          mirrors.store mirrors.cache (serial.1.clock + timeout)
      refine ⟨(_, serial.2 ++ [reply]), ?_, runs.store, runs.cache, ?_⟩
      · rw [afterCall_history, committed_concat_of_isCommit isCommit]
        exact serially_concat mirrors.run (Prod.ext rfl runs.result)
      · rw [afterCall_history, committed_concat_of_isCommit isCommit,
          List.map_append, List.map_append, mirrors.replies]
        change _ ++ [some reply] = _ ++ [reply? _ turn.client]
        rw [reply?_of_done isOver]
  | false =>
      have nothing :
          (((start settings requests world).run earlier).event turn
            call).written? = none := by
        cases written :
            (((start settings requests world).run earlier).event turn
              call).written? with
        | none => rfl
        | some record =>
            cases isCommit.symm.trans (isCommit_of_written isNext written)
      refine ⟨serial, ?_, ?_, mirrors.cache, ?_⟩
      · rw [afterCall_history, committed_concat_of_not_isCommit isCommit]
        exact mirrors.run
      · rw [store_of_not_written nothing]
        exact mirrors.store
      · rw [afterCall_history, committed_concat_of_not_isCommit isCommit]
        exact mirrors.replies

end Steps

/-- However the calls of requests interleave, the store and the replies are
those of the requests that succeed, run alone one after another in the order of
their commits; and no write is based on a record that was overwritten since it
was read. -/
theorem serializable
    (settings : Settings) (requests : Client → Request)
    (sources : Client → IdSequence) (timeout : Nat)
    (turns : List (Turn Client))
    (reachable : world.Reachable steady)
    (answers : ∀ turn ∈ turns, steady.Answers turn.conditions)
    (sameIds :
      ∀ client, ∀ identifier ∈
        ((start settings requests world).run turns).allocations client,
        (sources client).allocate.2 = .ok identifier) :
    let final := (start settings requests world).run turns
    let serial :=
      serially settings requests sources steady.conditions timeout
        final.commitOrder world
    final.commitOrder.Nodup ∧
      (∀ client,
        client ∈ final.commitOrder ↔ final.succeeded client = true) ∧
      serial.1.store = final.world.store ∧
      serial.2.map some = final.commitOrder.map final.reply? ∧
      final.BasedOnReads := by
  intro final
  have confirms := reachable.confirms
  obtain ⟨serial, mirrors⟩ :
      ∃ serial,
        Mirrors settings requests sources steady timeout world final final
          serial := by
    refine run_induction
      (fun reached =>
        ∃ serial,
          Mirrors settings requests sources steady timeout world final reached
            serial)
      ⟨(world, []), rfl, rfl, confirms, rfl⟩ turns ?_
    rintro earlier turn later call resume rfl ⟨before, mirrors⟩ isNext
    exact mirrors_afterCall confirms answers sameIds isNext mirrors
  have isSerial :
      serially settings requests sources steady.conditions timeout
        final.commitOrder world = serial :=
    mirrors.run
  rw [isSerial]
  exact
    ⟨nodup_committed final turns, mem_commitOrder turns, mirrors.store,
      mirrors.replies, basedOnReads_run turns⟩

/-- One client submits a trace and two others tag it. -/
def submitAndTag (client : Fin 3) : Request :=
  let allocated := "00000000000000000000000000000000"
  if client = 0 then
    .submit none
      { info :=
          some
            { location := some { experiment := some (some "1") }
              requestTime := some default } }
  else if client = 1 then .setTag none allocated "stage" "first"
  else .setTag none allocated "stage" "second"

/-- Both taggers read before one of them writes. -/
def submitAndTagTurns : List (Turn (Fin 3)) :=
  ([0, 0, 0, 0, 0, 0, 0, 1, 2, 2, 1, 2, 1] : List (Fin 3)).map
    fun client => { client }

/-- The write of the slower tagger is refused. -/
theorem serializable_submitAndTag :
    let final :=
      (start {} submitAndTag (World.initial (.start 0))).run submitAndTagTurns
    final.commitOrder = [0, 2] ∧
      (serially {} submitAndTag (fun _ => .start 0) {} 0 [0, 2]
        (World.initial (.start 0))).1.store = final.world.store := by
  intro final
  have order : final.commitOrder = [0, 2] := by
    decide +kernel
  let steady : Steady :=
    ⟨fun _ => .answered true, fun _ _ => .answered true⟩
  have answers :
      ∀ turn ∈ submitAndTagTurns, steady.Answers turn.conditions := by
    intro turn member
    obtain ⟨client, _, rfl⟩ := List.mem_map.mp member
    exact ⟨rfl, rfl⟩
  have sameIds :
      ∀ client, ∀ identifier ∈ final.allocations client,
        (IdSequence.start 0).allocate.2 = .ok identifier := by
    decide +kernel
  have outcome :=
    serializable {} submitAndTag (fun _ => .start 0) 0 submitAndTagTurns
      (World.Reachable.initial (.start 0)) answers sameIds
  refine ⟨order, ?_⟩
  rw [← order]
  exact outcome.2.2.1

end Traffic

end TraceArchive
