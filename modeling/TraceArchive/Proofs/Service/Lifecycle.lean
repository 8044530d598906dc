import Mathlib.Data.List.Chain
import TraceArchive.Proofs.Service.Commits
import TraceArchive.Proofs.Store.History

/-!
# Lives of traces

The records that a run commits under one identifier are the life of a trace:
each follows from the one before by what a request makes of it. From that it is
read off which parts of a record can ever change. The main statement is
`lifecycle_of_run`.
-/

namespace TraceArchive

/-! ## What requests leave as it is -/

/-- The trace with other tags. -/
def Trace.withTags (trace : Trace) (tags : KeyMap String) : Trace :=
  { trace with info := { trace.info with tags } }

namespace Request.Makes

variable {settings : Settings} {request : Request} {stored : StoredTrace}
  {trace : Trace}

theorem location
    (makes : request.Makes settings (some stored) trace) :
    trace.info.location = stored.trace.info.location := by
  cases makes with
  | updated fits updatable isResult =>
      exact (Submission.location_of_result isResult).trans
        (Submission.updatable_iff.mp updatable).2.1
  | tagged _ => rfl
  | untagged _ _ => rfl

/-- Only a trace in progress is changed beyond its tags. -/
theorem settled
    (makes : request.Makes settings (some stored) trace)
    (isOver : stored.trace.info.state ≠ .inProgress) :
    trace = stored.trace.withTags trace.info.tags := by
  cases makes with
  | updated fits updatable isResult =>
      exact absurd (Submission.updatable_iff.mp updatable).1 isOver
  | tagged _ => rfl
  | untagged _ _ => rfl

theorem state
    (makes : request.Makes settings (some stored) trace) :
    trace.info.state = stored.trace.info.state ∨
      stored.trace.info.state = .inProgress ∧
        (trace.info.state = .ok ∨ trace.info.state = .error) := by
  cases makes with
  | @updated _ _ submission _ _ _ _ updatable isResult =>
      obtain ⟨underway, _, declared⟩ := Submission.updatable_iff.mp updatable
      rw [Submission.state_of_result isResult, underway]
      cases state : submission.info.state with
      | unspecified => exact absurd state declared
      | ok => exact Or.inr ⟨rfl, Or.inl rfl⟩
      | error => exact Or.inr ⟨rfl, Or.inr rfl⟩
      | inProgress => exact Or.inl rfl
  | tagged _ => exact Or.inl rfl
  | untagged _ _ => exact Or.inl rfl

end Request.Makes

/-! ## The records of a run -/

/-- A record with the client whose request committed it. -/
structure Commit (Client : Type) where
  client : Client
  record : StoredTrace

/-- The records that were committed, in their order. -/
def recordsOf {Client : Type} (commits : List (Commit Client)) :
    List StoredTrace :=
  commits.map Commit.record

@[simp]
theorem recordsOf_concat
    {Client : Type} (commits : List (Commit Client)) (commit : Commit Client) :
    recordsOf (commits ++ [commit]) = recordsOf commits ++ [commit.record] := by
  simp [recordsOf]

/-- Commits under one identifier, each of what its request made of the record
before. -/
inductive Life {Client : Type} (settings : Settings)
    (requests : Client → Request) (id : String) : List (Commit Client) → Prop
  | unborn : Life settings requests id []
  | made {commits : List (Commit Client)} {commit : Commit Client} :
      Life settings requests id commits →
      (requests commit.client).Makes settings (recordsOf commits).getLast?
        commit.record.trace →
      commit.record.trace.id = id →
      commit.record.version = nextVersion (recordsOf commits).getLast? →
      Life settings requests id (commits ++ [commit])

/-- What can be told about the records under an identifier as a whole. -/
structure Lifecycle (id : String) (records : List StoredTrace) : Prop where
  named : ∀ record ∈ records, record.trace.id = id
  numbered : records.map StoredTrace.version = List.range' 1 records.length
  located :
    records.Pairwise fun earlier later =>
      later.trace.info.location = earlier.trace.info.location
  settled :
    records.Pairwise fun earlier later =>
      earlier.trace.info.state ≠ .inProgress →
        later.trace = earlier.trace.withTags later.trace.info.tags
  transitions :
    records.IsChain fun earlier later =>
      later.trace.info.state = earlier.trace.info.state ∨
        earlier.trace.info.state = .inProgress ∧
          (later.trace.info.state = .ok ∨ later.trace.info.state = .error)

theorem nextVersion_of_numbered
    {records : List StoredTrace}
    (numbered :
      records.map StoredTrace.version = List.range' 1 records.length) :
    nextVersion records.getLast? = records.length + 1 := by
  rw [← version_of_numbered numbered]
  cases records.getLast? with
  | none => rfl
  | some last => rfl

namespace Life

variable {Client : Type} {settings : Settings} {requests : Client → Request}
  {id : String} {commits : List (Commit Client)}

/-- Of two neighbours the request of the later made its trace of the earlier
record. -/
theorem isChain (life : Life settings requests id commits) :
    commits.IsChain fun earlier later =>
      (requests later.client).Makes settings (some earlier.record)
        later.record.trace := by
  induction life with
  | unborn => exact List.IsChain.nil
  | @made commits commit earlier makes _ _ inductionHypothesis =>
      refine List.isChain_append.mpr
        ⟨inductionHypothesis, List.isChain_singleton commit, ?_⟩
      intro last isLast next isNext
      cases isNext
      rw [recordsOf, List.getLast?_map, Option.mem_def.mp isLast] at makes
      exact makes

/-- What goes on from neighbour to neighbour holds of any two records. -/
theorem pairwise
    {relation : StoredTrace → StoredTrace → Prop}
    (life : Life settings requests id commits)
    (transitive :
      ∀ first second third : StoredTrace,
        relation first second → relation second third → relation first third)
    (afterwards :
      ∀ (request : Request) (stored record : StoredTrace),
        request.Makes settings (some stored) record.trace →
          relation stored record) :
    (recordsOf commits).Pairwise relation := by
  have goesOn : Trans relation relation relation :=
    ⟨fun {first second third} => transitive first second third⟩
  refine List.isChain_iff_pairwise.mp ?_
  refine (List.isChain_map Commit.record).mpr ?_
  exact life.isChain.imp fun earlier later =>
    afterwards (requests later.client) earlier.record later.record

theorem numbered (life : Life settings requests id commits) :
    (recordsOf commits).map StoredTrace.version =
      List.range' 1 (recordsOf commits).length := by
  induction life with
  | unborn => rfl
  | @made commits commit earlier makes _ isVersion inductionHypothesis =>
      rw [nextVersion_of_numbered inductionHypothesis] at isVersion
      rw [recordsOf_concat, List.map_append, List.length_append,
        List.length_singleton, List.range'_1_concat, inductionHypothesis,
        List.map_singleton, isVersion, Nat.add_comm 1]

theorem named (life : Life settings requests id commits) :
    ∀ record ∈ recordsOf commits, record.trace.id = id := by
  induction life with
  | unborn => simp [recordsOf]
  | @made commits commit earlier makes isNamed _ inductionHypothesis =>
      intro record member
      rw [recordsOf_concat] at member
      rcases List.mem_append.mp member with before | last
      · exact inductionHypothesis record before
      · rw [List.mem_singleton.mp last]
        exact isNamed

/-- What every request keeps up holds of all traces of a life. -/
theorem forall_of_makes
    {property : Trace → Prop} (life : Life settings requests id commits)
    (afterwards :
      ∀ (client : Client) (previous : Option StoredTrace) (trace : Trace),
        (requests client).Makes settings previous trace →
          (∀ stored, previous = some stored →
            stored.trace.id = trace.id ∧ property stored.trace) →
            property trace) :
    ∀ record ∈ recordsOf commits, property record.trace := by
  induction life with
  | unborn => exact List.forall_mem_nil _
  | @made commits commit earlier makes isNamed _ inductionHypothesis =>
      rw [recordsOf_concat, List.forall_mem_append, List.forall_mem_singleton]
      refine ⟨inductionHypothesis, ?_⟩
      refine afterwards commit.client _ commit.record.trace makes ?_
      intro stored isLast
      have inRecords := List.mem_of_getLast? isLast
      exact
        ⟨(earlier.named stored inRecords).trans isNamed.symm,
          inductionHypothesis stored inRecords⟩

/-- After the end of an execution only tags change. -/
theorem settled (life : Life settings requests id commits) :
    (recordsOf commits).Pairwise fun earlier later =>
      earlier.trace.info.state ≠ .inProgress →
        later.trace = earlier.trace.withTags later.trace.info.tags := by
  refine life.pairwise ?_ fun _ _ _ makes => makes.settled
  intro first second third firstStep secondStep isOver
  have same := firstStep isOver
  have stillOver : second.trace.info.state ≠ .inProgress := by
    rw [same]
    exact isOver
  rw [secondStep stillOver, same]
  rfl

theorem lifecycle (life : Life settings requests id commits) :
    Lifecycle id (recordsOf commits) where
  named := life.named
  numbered := life.numbered
  located :=
    life.pairwise (fun _ _ _ first second => second.trans first)
      fun _ _ _ makes => makes.location
  settled := life.settled
  transitions :=
    (List.isChain_map Commit.record).mpr
      (life.isChain.imp fun _ _ makes => makes.state)

end Life

namespace Traffic

variable {Client : Type} [DecidableEq Client]

/-- The commit of an event, if it has put a record under an identifier. -/
def commit? (id : String) (event : Event Client) : Option (Commit Client) :=
  match event.written? with
  | some record =>
      if record.trace.id = id then some ⟨event.client, record⟩ else none
  | none => none

/-- The commits under an identifier, the latest last. -/
def commits (traffic : Traffic Client) (id : String) : List (Commit Client) :=
  traffic.history.filterMap (commit? id)

section AfterCall

variable {traffic : Traffic Client} {turn : Turn Client} {call : Call}
  {resume : call.Answer → Program Reply} {id : String}

theorem commits_afterCall :
    (traffic.afterCall turn call resume).commits id =
      traffic.commits id ++
        (commit? id (traffic.event turn call)).toList := by
  rw [commits, afterCall_history, List.filterMap_append, List.filterMap_cons]
  cases commit? id (traffic.event turn call) <;> rfl

omit [DecidableEq Client] in
theorem commit?_of_not_written
    (nothing : (traffic.event turn call).written? = none) :
    commit? id (traffic.event turn call) = none := by
  rw [commit?, nothing]

omit [DecidableEq Client] in
theorem commit?_of_written
    {record : StoredTrace}
    (written : (traffic.event turn call).written? = some record) :
    commit? id (traffic.event turn call) =
      if record.trace.id = id then some ⟨turn.client, record⟩ else none := by
  rw [commit?, written]
  rfl

end AfterCall

/-- Later turns only add to what was committed. -/
theorem commits_extend
    (traffic : Traffic Client) (turns : List (Turn Client)) (id : String) :
    traffic.commits id <+: (traffic.run turns).commits id :=
  (history_run traffic turns).filterMap _

/-- What a run from the empty store committed under an identifier is a life, and
the last of it is what is stored there. -/
theorem life_of_run
    (settings : Settings) (requests : Client → Request) (ids : IdSequence)
    (turns : List (Turn Client)) (id : String) :
    let reached := (start settings requests (World.initial ids)).run turns
    Life settings requests id (reached.commits id) ∧
      reached.world.store.get? id =
        (recordsOf (reached.commits id)).getLast? := by
  refine run_induction
    (fun reached =>
      Life settings requests id (reached.commits id) ∧
        reached.world.store.get? id =
          (recordsOf (reached.commits id)).getLast?)
    ⟨Life.unborn, rfl⟩ turns ?_
  intro earlier turn _ call resume _ ⟨life, current⟩ isNext
  rw [commits_afterCall]
  cases written :
      (((start settings requests (World.initial ids)).run earlier).event turn
        call).written? with
  | none =>
      rw [commit?_of_not_written written, store_of_not_written written]
      simpa using ⟨life, current⟩
  | some record =>
      obtain ⟨_, makes, isVersion, put⟩ :=
        commit_of_record earlier isNext written
      rw [commit?_of_written written, put]
      by_cases same : record.trace.id = id
      · subst same
        rw [if_pos rfl, TraceStore.get?_put_self]
        rw [current] at makes isVersion
        exact ⟨Life.made life makes rfl isVersion, by simp⟩
      · rw [if_neg same,
          TraceStore.get?_put_of_ne _ fun equal => same equal.symm]
        simpa using ⟨life, current⟩

/-- In every run from the empty store a record stays once it is there, its
versions count up from one, its identifier and location stay, and its state
changes only from being in progress to an end, after which nothing but the tags
changes. -/
theorem lifecycle_of_run
    (settings : Settings) (requests : Client → Request) (ids : IdSequence)
    (turns : List (Turn Client)) (id : String) :
    let reached := (start settings requests (World.initial ids)).run turns
    Lifecycle id (recordsOf (reached.commits id)) ∧
      reached.world.store.get? id =
          (recordsOf (reached.commits id)).getLast? ∧
        ∀ more, reached.commits id <+: (reached.run more).commits id ∧
          ((reached.world.store.get? id).isSome →
            ((reached.run more).world.store.get? id).isSome) := by
  intro reached
  obtain ⟨life, current⟩ := life_of_run settings requests ids turns id
  refine ⟨life.lifecycle, current, ?_⟩
  intro more
  refine ⟨commits_extend reached more id, ?_⟩
  intro present
  obtain ⟨record, stored⟩ := Option.isSome_iff_exists.mp present
  obtain ⟨later, isLater, _⟩ := grows_run reached more id record stored
  rw [isLater]
  rfl

/-! ## Versions have room -/

theorem length_history_le
    (traffic : Traffic Client) (turns : List (Turn Client)) :
    (traffic.run turns).history.length ≤
      traffic.history.length + turns.length := by
  induction turns generalizing traffic with
  | nil => exact Nat.le_refl _
  | cons turn rest inductionHypothesis =>
      have first :
          (traffic.advance turn).history.length ≤
            traffic.history.length + 1 := by
        unfold advance
        split
        · exact Nat.le_succ _
        · rw [afterCall_history, List.length_append, List.length_singleton]
      have others := inductionHypothesis (traffic.advance turn)
      rw [List.length_cons]
      exact Nat.le_trans others (by omega)

/-- A record has been written once for each of its versions, and in every turn
there is one write at most. -/
theorem version_le_of_run
    (settings : Settings) (requests : Client → Request) (ids : IdSequence)
    (turns : List (Turn Client)) {id : String} {record : StoredTrace}
    (stored :
      ((start settings requests (World.initial ids)).run
        turns).world.store.get? id = some record) :
    record.version ≤ turns.length := by
  obtain ⟨life, current⟩ := life_of_run settings requests ids turns id
  rw [current] at stored
  have isLength := version_of_numbered life.numbered
  rw [stored, recordsOf, List.length_map] at isLength
  have fewCommits :
      (((start settings requests (World.initial ids)).run
        turns).commits id).length ≤ _ :=
    List.length_filterMap_le _ _
  have fewEvents :=
    length_history_le (start settings requests (World.initial ids)) turns
  have noneBefore :
      (start settings requests (World.initial ids)).history.length = 0 :=
    rfl
  have isVersion : record.version = _ := isLength
  omega

/-- In a run from the empty store there is room for a further version of every
record for 2 ^ 64 - 2 turns. -/
theorem hasRoom_of_run
    (settings : Settings) (requests : Client → Request) (ids : IdSequence)
    {turns : List (Turn Client)} (few : turns.length + 1 < UInt64.size)
    {id : String} {record : StoredTrace}
    (stored :
      ((start settings requests (World.initial ids)).run
        turns).world.store.get? id = some record) :
    record.HasRoom :=
  Nat.lt_of_le_of_lt
    (Nat.succ_le_succ (version_le_of_run settings requests ids turns stored))
    few

end Traffic

end TraceArchive
