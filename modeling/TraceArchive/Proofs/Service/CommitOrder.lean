import TraceArchive.Proofs.Service.Commits

/-!
# The order of the commits

A request that succeeds has one commit: its write or, if it writes nothing, its
read. So the commits of a run put the requests that succeed into an order. A
write is based on a record that nobody overwrites before the write.
-/

namespace TraceArchive

namespace Traffic

variable {Client : Type} [DecidableEq Client]

/-- What the request of a client ended with, if it is over. -/
def reply? (traffic : Traffic Client) (client : Client) : Option Reply :=
  match traffic.pending client with
  | .done reply => some reply
  | .step _ _ => none

/-- Whether the request of a client has succeeded. -/
def succeeded (traffic : Traffic Client) (client : Client) : Bool :=
  match traffic.pending client with
  | .done (.ok _) => true
  | _ => false

/-- Whether a client has put a record into the store. -/
def hasWritten (traffic : Traffic Client) (client : Client) : Bool :=
  traffic.history.any fun event =>
    decide (event.client = client) && event.written?.isSome

/-- Whether an event is the commit of a request that succeeded: its write, or
its read if it writes nothing. -/
def isCommit (traffic : Traffic Client) (event : Event Client) : Bool :=
  traffic.succeeded event.client &&
    if traffic.hasWritten event.client then event.written?.isSome
    else event.read?.isSome

/-- The clients whose commits are among some events, in their order. -/
def committed (traffic : Traffic Client) (events : List (Event Client)) :
    List Client :=
  (events.filter traffic.isCommit).map Event.client

/-- The clients whose requests succeeded, in the order of their commits. -/
def commitOrder (traffic : Traffic Client) : List Client :=
  traffic.committed traffic.history

/-- The identifiers that were allocated for a client. -/
def allocations (traffic : Traffic Client) (client : Client) :
    List Identifier :=
  (traffic.exchanges client).filterMap Exchange.allocated?

/-! ## What the history tells about a client -/

variable {settings : Settings} {requests : Client → Request} {world : World}

/-- A request that is over stays so. -/
theorem run_of_done
    {traffic : Traffic Client} {client : Client} {reply : Reply}
    (isOver : traffic.pending client = .done reply)
    (turns : List (Turn Client)) :
    (traffic.run turns).pending client = .done reply := by
  refine run_induction
    (fun reached => reached.pending client = .done reply) isOver turns ?_
  intro earlier turn later call resume _ stillOver isNext
  have different : client ≠ turn.client := by
    rintro rfl
    rw [stillOver] at isNext
    cases isNext
  rw [afterCall_pending_of_ne different]
  exact stillOver

/-- Whether the client of an event still knows what it wrote or read then. -/
structure Recalls (traffic : Traffic Client) (event : Event Client) :
    Prop where
  written : ∀ record, event.written? = some record →
    (traffic.knowledge event.client).stage = .wrote record
  read : ∀ reading, event.read? = some reading →
    (traffic.knowledge event.client).reading = some reading

theorem recalls_run (turns : List (Turn Client)) :
    let reached := (start settings requests world).run turns
    ∀ event ∈ reached.history, reached.Recalls event := by
  refine run_induction
    (fun reached => ∀ event ∈ reached.history, reached.Recalls event)
    (by simp [start]) turns ?_
  intro earlier turn later call resume _ known isNext event member
  have demanded := demands_next isNext
  rw [afterCall_history, List.mem_append, List.mem_singleton] at member
  rcases member with before | rfl
  · obtain ⟨wrote, read⟩ := known event before
    by_cases same : event.client = turn.client
    · rw [same] at wrote read
      refine ⟨?_, ?_⟩
      · intro record written
        have isOver := wrote record written
        rw [demanded.1] at isOver
        cases isOver
      · intro reading isRead
        rw [same, knowledge_afterCall_self]
        exact Request.reading_kept demanded (read reading isRead)
    · refine ⟨?_, ?_⟩
      · rw [knowledge_afterCall_of_ne same]
        exact wrote
      · rw [knowledge_afterCall_of_ne same]
        exact read
  · refine ⟨?_, ?_⟩
    · intro record written
      change Knowledge.stage (knowledge _ turn.client) = _
      rw [knowledge_afterCall_self]
      exact Knowledge.stage_of_written _ _ written
    · intro reading isRead
      change Knowledge.reading (knowledge _ turn.client) = _
      rw [knowledge_afterCall_self, Knowledge.learn_reading, isRead]
      rfl

/-- Whether what a client knows of writing, reading and identifiers comes from
its events. -/
structure Accounts (traffic : Traffic Client) (client : Client) : Prop where
  written : ∀ record, (traffic.knowledge client).stage = .wrote record →
    ∃ event ∈ traffic.history, event.client = client ∧
      event.written? = some record
  read : ∀ reading, (traffic.knowledge client).reading = some reading →
    ∃ event ∈ traffic.history, event.client = client ∧
      event.read? = some reading
  allocated : ∀ identifier,
    (traffic.knowledge client).allocated = some identifier →
      identifier ∈ traffic.allocations client

theorem accounts_run (turns : List (Turn Client)) (client : Client) :
    ((start settings requests world).run turns).Accounts client := by
  refine run_induction (fun reached => reached.Accounts client) ?_ turns ?_
  · refine ⟨?_, ?_, ?_⟩
    · intro record wrote
      cases wrote
    · intro reading isRead
      cases isRead
    · intro identifier allocated
      cases allocated
  · intro earlier turn later call resume _ accounts _
    generalize (start settings requests world).run earlier = reached
      at accounts ⊢
    obtain ⟨fromWrite, fromRead, fromAllocation⟩ := accounts
    by_cases same : client = turn.client
    · subst same
      refine ⟨?_, ?_, ?_⟩
      · intro record wrote
        rw [knowledge_afterCall_self] at wrote
        rw [afterCall_history]
        rcases Knowledge.written_of_stage _ _ wrote with earlier | written
        · obtain ⟨event, member, isClient, isWritten⟩ :=
            fromWrite record earlier
          exact ⟨event, List.mem_append_left _ member, isClient, isWritten⟩
        · exact
            ⟨_, List.mem_append_right _ List.mem_cons_self, rfl, written⟩
      · intro reading isReading
        rw [knowledge_afterCall_self, Knowledge.learn_reading] at isReading
        rw [afterCall_history]
        rcases Option.or_eq_some_iff.mp isReading with isRead | ⟨_, earlier⟩
        · exact ⟨_, List.mem_append_right _ List.mem_cons_self, rfl, isRead⟩
        · obtain ⟨event, member, isClient, isRead⟩ := fromRead reading earlier
          exact ⟨event, List.mem_append_left _ member, isClient, isRead⟩
      · intro identifier isAllocated
        rw [knowledge_afterCall_self, Knowledge.learn_allocated] at isAllocated
        rw [allocations, exchanges_afterCall_self, List.filterMap_append,
          List.mem_append]
        rcases Option.or_eq_some_iff.mp isAllocated with now | ⟨_, earlier⟩
        · refine Or.inr (List.mem_filterMap.mpr ?_)
          exact ⟨_, List.mem_cons_self, now⟩
        · exact Or.inl (fromAllocation identifier earlier)
    · refine ⟨?_, ?_, ?_⟩
      · rw [knowledge_afterCall_of_ne same, afterCall_history]
        intro record wrote
        obtain ⟨event, member, isClient, isWritten⟩ := fromWrite record wrote
        exact ⟨event, List.mem_append_left _ member, isClient, isWritten⟩
      · rw [knowledge_afterCall_of_ne same, afterCall_history]
        intro reading isReading
        obtain ⟨event, member, isClient, isRead⟩ := fromRead reading isReading
        exact ⟨event, List.mem_append_left _ member, isClient, isRead⟩
      · rw [knowledge_afterCall_of_ne same, allocations,
          exchanges_afterCall_of_ne same]
        exact fromAllocation

/-- A request that has written is over and has succeeded. -/
theorem done_of_wrote
    (turns : List (Turn Client)) {client : Client} {record : StoredTrace}
    (wrote :
      (((start settings requests world).run turns).knowledge client).stage =
        .wrote record) :
    ((start settings requests world).run turns).pending client =
      .done (.ok record.trace) := by
  have keeps :
      Program.Keeps ((requests client).contract settings)
        (Attempt.MayEnd (requests client).MayAnswer Request.MayFail)
        (((start settings requests world).run turns).knowledge client)
        (((start settings requests world).run turns).pending client) :=
    keeps_run turns client
  cases pending :
      ((start settings requests world).run turns).pending client with
  | step call resume =>
      have demanded := demands_next pending
      rw [demanded.1] at wrote
      cases wrote
  | done reply =>
      rw [pending, Program.keeps_done] at keeps
      cases reply with
      | error error => exact absurd wrote (keeps record)
      | ok trace =>
          have isTrace : (requests client).MayAnswer _ trace := keeps
          unfold Request.MayAnswer at isTrace
          rw [wrote] at isTrace
          rw [isTrace]

/-- A request that has succeeded without a write has read. -/
theorem read_of_succeeded
    (turns : List (Turn Client)) {client : Client} {trace : Trace}
    (isOver :
      ((start settings requests world).run turns).pending client =
        .done (.ok trace))
    (unwritten :
      ∀ record,
        (((start settings requests world).run turns).knowledge client).stage ≠
          .wrote record) :
    let known := ((start settings requests world).run turns).knowledge client
    known.stage = .underway ∧
      ∃ reading, known.reading = some reading := by
  intro known
  have keeps :
      Program.Keeps ((requests client).contract settings)
        (Attempt.MayEnd (requests client).MayAnswer Request.MayFail)
        known (((start settings requests world).run turns).pending client) :=
    keeps_run turns client
  rw [isOver, Program.keeps_done] at keeps
  have answers : (requests client).MayAnswer known trace := keeps
  unfold Request.MayAnswer at answers
  cases stage : known.stage with
  | refused =>
      rw [stage] at answers
      exact answers.elim
  | wrote record => exact absurd stage (unwritten record)
  | underway =>
      rw [stage] at answers
      refine ⟨rfl, ?_⟩
      generalize requests client = request at answers
      cases answers with
      | got _ reading => exact ⟨_, reading⟩
      | untagged _ _ reading _ _ => exact ⟨_, reading⟩

/-! ## Calls in a longer run -/

section Longer

variable {earlier later : List (Turn Client)} {turn : Turn Client}
  {call : Call} {resume : call.Answer → Program Reply}

theorem event_mem_history
    (isNext :
      ((start settings requests world).run earlier).pending turn.client =
        .step call resume) :
    ((start settings requests world).run earlier).event turn call ∈
      ((start settings requests world).run
        (earlier ++ turn :: later)).history := by
  rw [run_split isNext]
  refine (history_run _ later).subset ?_
  rw [afterCall_history]
  exact List.mem_append_right _ List.mem_cons_self

theorem done_of_written
    (isNext :
      ((start settings requests world).run earlier).pending turn.client =
        .step call resume)
    {record : StoredTrace}
    (written :
      (((start settings requests world).run earlier).event turn
        call).written? = some record) :
    (((start settings requests world).run earlier).afterCall turn call
      resume).pending turn.client = .done (.ok record.trace) := by
  have isRun :
      (start settings requests world).run (earlier ++ [turn]) =
        ((start settings requests world).run earlier).afterCall turn call
          resume :=
    run_split isNext
  have wrote :
      ((((start settings requests world).run earlier).afterCall turn call
        resume).knowledge turn.client).stage = .wrote record := by
    rw [knowledge_afterCall_self]
    exact Knowledge.stage_of_written _ _ written
  rw [← isRun] at wrote ⊢
  exact done_of_wrote _ wrote

end Longer

/-! ## Every request that succeeds commits once -/

omit [DecidableEq Client] in
theorem succeeded_iff {traffic : Traffic Client} {client : Client} :
    traffic.succeeded client = true ↔
      ∃ trace, traffic.pending client = .done (.ok trace) := by
  unfold succeeded
  split
  · rename_i trace isOver
    exact ⟨fun _ => ⟨trace, isOver⟩, fun _ => rfl⟩
  · rename_i other
    constructor
    · intro impossible
      cases impossible
    · rintro ⟨trace, isOver⟩
      exact absurd isOver (other trace)

theorem hasWritten_iff {traffic : Traffic Client} {client : Client} :
    traffic.hasWritten client = true ↔
      ∃ event ∈ traffic.history, event.client = client ∧
        ∃ record, event.written? = some record := by
  simp [hasWritten, Option.isSome_iff_exists]

theorem Accounts.unwritten
    {traffic : Traffic Client} {client : Client}
    (accounts : traffic.Accounts client)
    (unwritten : traffic.hasWritten client = false) (record : StoredTrace) :
    (traffic.knowledge client).stage ≠ .wrote record := by
  intro wrote
  obtain ⟨event, member, isClient, written⟩ := accounts.written record wrote
  have contrary : traffic.hasWritten client = true :=
    hasWritten_iff.mpr ⟨event, member, isClient, record, written⟩
  cases unwritten.symm.trans contrary

/-- A commit is the write of a client, or the read of one that has not
written. -/
theorem isCommit_iff {traffic : Traffic Client} {event : Event Client} :
    traffic.isCommit event = true ↔
      traffic.succeeded event.client = true ∧
        (traffic.hasWritten event.client = true ∧
            (∃ record, event.written? = some record) ∨
          traffic.hasWritten event.client = false ∧
            ∃ reading, event.read? = some reading) := by
  unfold isCommit
  cases traffic.hasWritten event.client with
  | false => simp [Option.isSome_iff_exists]
  | true => simp [Option.isSome_iff_exists]

/-- Every write is a commit. -/
theorem isCommit_of_written
    {earlier later : List (Turn Client)} {turn : Turn Client} {call : Call}
    {resume : call.Answer → Program Reply}
    (isNext :
      ((start settings requests world).run earlier).pending turn.client =
        .step call resume)
    {record : StoredTrace}
    (written :
      (((start settings requests world).run earlier).event turn
        call).written? = some record) :
    ((start settings requests world).run
      (earlier ++ turn :: later)).isCommit
        (((start settings requests world).run earlier).event turn call) =
      true := by
  refine isCommit_iff.mpr ⟨?_, Or.inl ⟨?_, record, written⟩⟩
  · rw [run_split isNext]
    exact succeeded_iff.mpr
      ⟨_, run_of_done (done_of_written isNext written) later⟩
  · exact hasWritten_iff.mpr
      ⟨_, event_mem_history isNext, rfl, record, written⟩

theorem committed_concat_of_isCommit
    {traffic : Traffic Client} {events : List (Event Client)}
    {event : Event Client} (isCommit : traffic.isCommit event = true) :
    traffic.committed (events ++ [event]) =
      traffic.committed events ++ [event.client] := by
  simp [committed, isCommit]

theorem committed_concat_of_not_isCommit
    {traffic : Traffic Client} {events : List (Event Client)}
    {event : Event Client} (other : traffic.isCommit event = false) :
    traffic.committed (events ++ [event]) = traffic.committed events := by
  simp [committed, other]

/-- No client commits twice. -/
theorem nodup_committed
    (final : Traffic Client) (turns : List (Turn Client)) :
    (final.committed
      ((start settings requests world).run turns).history).Nodup := by
  refine run_induction
    (fun reached => (final.committed reached.history).Nodup) (by
      change List.Nodup []
      exact List.nodup_nil) turns ?_
  intro earlier turn later call resume _ nodup isNext
  have demanded := demands_next isNext
  have known := @recalls_run _ _ settings requests world earlier
  generalize (start settings requests world).run earlier = reached
    at nodup demanded known ⊢
  rw [afterCall_history]
  cases commits : final.isCommit (reached.event turn call) with
  | false =>
      rw [committed_concat_of_not_isCommit commits]
      exact nodup
  | true =>
      rw [committed_concat_of_isCommit commits]
      refine List.nodup_append.mpr ⟨nodup, by simp, ?_⟩
      intro client committed other isOther same
      obtain ⟨event, member, rfl⟩ := List.mem_map.mp committed
      obtain ⟨before, isCommit⟩ := List.mem_filter.mp member
      rw [List.mem_singleton.mp isOther] at same
      change event.client = turn.client at same
      obtain ⟨wrote, read⟩ := known event before
      rw [same] at wrote read
      rcases (isCommit_iff.mp isCommit).2 with
        ⟨_, record, written⟩ | ⟨unwritten, reading, isRead⟩
      · have isOver := wrote record written
        rw [demanded.1] at isOver
        cases isOver
      · rw [same] at unwritten
        rcases (isCommit_iff.mp commits).2 with
          ⟨hasWritten, _⟩ | ⟨_, again, readAgain⟩
        · cases unwritten.symm.trans hasWritten
        · have fresh :=
            @Request.reading_of_demands _ _ _
              (reached.event turn call).toExchange demanded _ readAgain
          rw [read reading isRead] at fresh
          cases fresh

/-- The clients in the order of the commits are those whose requests
succeeded. -/
theorem mem_commitOrder (turns : List (Turn Client)) (client : Client) :
    let reached := (start settings requests world).run turns
    client ∈ reached.commitOrder ↔ reached.succeeded client = true := by
  intro reached
  have accounts : reached.Accounts client := accounts_run turns client
  constructor
  · intro committed
    obtain ⟨event, member, rfl⟩ := List.mem_map.mp committed
    exact (isCommit_iff.mp (List.mem_filter.mp member).2).1
  · intro succeeded
    have commits :
        ∀ event ∈ reached.history, event.client = client →
          reached.isCommit event = true → client ∈ reached.commitOrder := by
      rintro event member rfl isCommit
      exact List.mem_map_of_mem (List.mem_filter.mpr ⟨member, isCommit⟩)
    cases hasWritten : reached.hasWritten client with
    | true =>
        obtain ⟨event, member, isClient, written⟩ :=
          hasWritten_iff.mp hasWritten
        refine commits event member isClient (isCommit_iff.mpr ?_)
        rw [isClient]
        exact ⟨succeeded, Or.inl ⟨hasWritten, written⟩⟩
    | false =>
        obtain ⟨trace, isOver⟩ := succeeded_iff.mp succeeded
        obtain ⟨_, reading, isReading⟩ :=
          read_of_succeeded turns isOver (accounts.unwritten hasWritten)
        obtain ⟨event, member, isClient, isRead⟩ :=
          accounts.read reading isReading
        refine commits event member isClient (isCommit_iff.mpr ?_)
        rw [isClient]
        exact ⟨succeeded, Or.inr ⟨hasWritten, reading, isRead⟩⟩

/-! ## What a write is based on -/

/-- Whether nobody has written a record under an identifier. -/
def Untouched (id : String) (events : List (Event Client)) : Prop :=
  ∀ event ∈ events, ∀ record, event.written? = some record →
    record.trace.id ≠ id

omit [DecidableEq Client] in
theorem Untouched.append
    {id : String} {earlier later : List (Event Client)}
    (before : Untouched id earlier) (after : Untouched id later) :
    Untouched id (earlier ++ later) :=
  List.forall_mem_append.mpr ⟨before, after⟩

/-- After a read either the record is as it was read, or it has a greater
version. -/
def ReadsAge (traffic : Traffic Client) : Prop :=
  ∀ before read after id found,
    traffic.history = before ++ read :: after →
      read.read? = some (id, found) →
        (Untouched id after ∧ traffic.world.store.get? id = found) ∨
          ∃ current, traffic.world.store.get? id = some current ∧
            nextVersion found ≤ current.version

theorem readsAge_run (turns : List (Turn Client)) :
    ReadsAge ((start settings requests world).run turns) := by
  refine run_induction ReadsAge ?_ turns ?_
  · intro before read after id found split
    simp [start] at split
  · intro earlier turn _ call resume _ age isNext before read after id found
      split isRead
    have commits :=
      @commit_of_record _ _ settings requests world earlier turn call resume
    generalize (start settings requests world).run earlier = reached
      at age isNext commits split ⊢
    rw [afterCall_history] at split
    rcases split_concat split with ⟨_, rfl, rfl⟩ | ⟨initial, past, rfl⟩
    · refine Or.inl ⟨List.forall_mem_nil _, ?_⟩
      rw [store_of_not_written (Exchange.written?_of_read? isRead)]
      exact stored_of_read? isRead
    · have aged := age before read initial id found past isRead
      cases written : (reached.event turn call).written? with
      | none =>
          rw [store_of_not_written written]
          refine aged.imp_left ?_
          rintro ⟨untouched, same⟩
          refine ⟨untouched.append ?_, same⟩
          intro event member record isWritten
          rw [List.mem_singleton.mp member, written] at isWritten
          cases isWritten
      | some record =>
          obtain ⟨_, _, version, put⟩ := commits isNext written
          rw [put]
          by_cases sameId : id = record.trace.id
          · subst sameId
            refine Or.inr ⟨record, TraceStore.get?_put_self _ record, ?_⟩
            rw [version]
            rcases aged with ⟨_, same⟩ | ⟨current, isCurrent, older⟩
            · exact Nat.le_of_eq (congrArg nextVersion same.symm)
            · rw [isCurrent]
              exact Nat.le_succ_of_le older
          · rw [TraceStore.get?_put_of_ne _ sameId]
            refine aged.imp_left ?_
            rintro ⟨untouched, same⟩
            refine ⟨untouched.append ?_, same⟩
            intro event member other isWritten
            rw [List.mem_singleton.mp member, written] at isWritten
            cases isWritten
            exact Ne.symm sameId

/-- Whether every write is based on what its client read, and nobody wrote
under that identifier in between. -/
def BasedOnReads (traffic : Traffic Client) : Prop :=
  ∀ before write after record, traffic.history = before ++ write :: after →
    write.written? = some record →
      ∃ first read between, before = first ++ read :: between ∧
        read.client = write.client ∧
          read.read? =
              some (record.trace.id,
                write.world.store.get? record.trace.id) ∧
            Untouched record.trace.id between

theorem basedOnReads_run (turns : List (Turn Client)) :
    BasedOnReads ((start settings requests world).run turns) := by
  refine run_induction BasedOnReads ?_ turns ?_
  · intro before write after record split
    simp [start] at split
  · intro earlier turn _ call resume _ based isNext before write after record
      split written
    have age : ReadsAge _ :=
      @readsAge_run _ _ settings requests world earlier
    have commits :=
      @commit_of_record _ _ settings requests world earlier turn call resume
    have accounts :=
      @accounts_run _ _ settings requests world earlier turn.client
    generalize (start settings requests world).run earlier = reached
      at age based isNext commits accounts split
    rw [afterCall_history] at split
    rcases split_concat split with ⟨rfl, rfl, _⟩ | ⟨initial, past, _⟩
    · obtain ⟨reading, _, version, _⟩ := commits isNext written
      obtain ⟨read, member, isClient, isRead⟩ := accounts.read _ reading
      obtain ⟨first, between, split'⟩ := List.append_of_mem member
      refine ⟨first, read, between, split', isClient, isRead, ?_⟩
      rcases age first read between _ _ split' isRead with
        ⟨untouched, _⟩ | ⟨current, isCurrent, older⟩
      · exact untouched
      · rw [isCurrent] at older
        exact absurd older (Nat.not_succ_le_self _)
    · exact based before write initial record past written

end Traffic

end TraceArchive
