import TraceArchive.Proofs.Service.IdSequence
import TraceArchive.Proofs.Service.Lifecycle
import TraceArchive.Proofs.Service.Locality

/-!
# Identifiers for submissions without one

A submission that tells no identifier takes the next one of the source. The
source gives none twice, but a client may have submitted a trace under that
identifier itself. Only then is the identifier in use already. The main
statement is `assigned_of_run`.
-/

namespace TraceArchive

/-! ## Where identifiers come from -/

namespace Request

/-- Whether a request submits a trace under an identifier that it tells
itself. -/
def Chooses (settings : Settings) (id : String) : Request → Prop
  | .submit _ message =>
      ∃ submission, Submission.ofRequest settings message = .ok submission ∧
        submission.traceId? = some id
  | _ => False

theorem chooses_or_allocated
    {settings : Settings} {request : Request} {known : Knowledge}
    {call : Call} {id : String}
    (warranted : request.Warrants settings known call)
    (reading : known.reading = some (id, none)) :
    request.Chooses settings id ∨
      ∃ identifier, known.allocated = some identifier ∧
        identifier.toHex = id := by
  cases warranted with
  | @created _ _ _ submission _ _ grounds readBefore _ =>
      rw [readBefore] at reading
      cases reading
      rcases grounds.named with told | ⟨_, _, identifier, _, given, same⟩
      · exact Or.inl ⟨submission, grounds.accepted, told⟩
      · exact Or.inr ⟨identifier, given, same.symm⟩
  | updated _ readBefore _ _ =>
      rw [readBefore] at reading
      cases reading
  | tagged _ _ readBefore _ =>
      rw [readBefore] at reading
      cases reading
  | untagged _ _ readBefore _ _ =>
      rw [readBefore] at reading
      cases reading

end Request

namespace Traffic

variable {Client : Type} [DecidableEq Client]

/-- Whether a client has submitted a trace under an identifier that it chose. -/
def WasChosen (traffic : Traffic Client) (settings : Settings)
    (requests : Client → Request) (id : String) : Prop :=
  ∃ commit ∈ traffic.commits id,
    (requests commit.client).Chooses settings id

/-- Whether an identifier was chosen by a client or given by the source. -/
def HasOrigin (traffic : Traffic Client) (settings : Settings)
    (requests : Client → Request) (id : String) : Prop :=
  traffic.WasChosen settings requests id ∨
    ∃ identifier, traffic.world.ids.Gave identifier ∧ identifier.toHex = id

/-- What the identifiers come from that clients know or that are in use. -/
structure Traced (settings : Settings) (requests : Client → Request)
    (traffic : Traffic Client) : Prop where
  allocated :
    ∀ client identifier,
      (traffic.knowledge client).allocated = some identifier →
        traffic.world.ids.Gave identifier
  stored :
    ∀ id record, traffic.world.store.get? id = some record →
      traffic.HasOrigin settings requests id

section AfterCall

variable {settings : Settings} {requests : Client → Request}
  {traffic : Traffic Client} {turn : Turn Client} {call : Call}
  {resume : call.Answer → Program Reply}

theorem gave_afterCall
    {identifier : Identifier} (gave : traffic.world.ids.Gave identifier) :
    (traffic.afterCall turn call resume).world.ids.Gave identifier :=
  @World.gave_answer (traffic.world.forget turn.forgets) _ _ _ gave call

theorem WasChosen.afterCall
    {id : String} (wasChosen : traffic.WasChosen settings requests id) :
    (traffic.afterCall turn call resume).WasChosen settings requests id := by
  obtain ⟨commit, member, chooses⟩ := wasChosen
  refine ⟨commit, ?_, chooses⟩
  rw [commits_afterCall]
  exact List.mem_append_left _ member

theorem HasOrigin.afterCall
    {id : String} (hasOrigin : traffic.HasOrigin settings requests id) :
    (traffic.afterCall turn call resume).HasOrigin settings requests id := by
  rcases hasOrigin with wasChosen | ⟨identifier, gave, isForm⟩
  · exact Or.inl wasChosen.afterCall
  · exact Or.inr ⟨identifier, gave_afterCall gave, isForm⟩

theorem Traced.allocated_afterCall
    (traced : traffic.Traced settings requests) {client : Client}
    {identifier : Identifier}
    (allocated :
      ((traffic.afterCall turn call resume).knowledge client).allocated =
        some identifier) :
    (traffic.afterCall turn call resume).world.ids.Gave identifier := by
  by_cases same : client = turn.client
  · subst same
    rw [knowledge_afterCall_self, Knowledge.learn_allocated] at allocated
    rcases Option.or_eq_some_iff.mp allocated with now | ⟨_, before⟩
    · exact
        @World.gave_of_allocated? (traffic.world.forget turn.forgets) _ _ _ _
          now
    · exact gave_afterCall (traced.allocated _ _ before)
  · rw [knowledge_afterCall_of_ne same] at allocated
    exact gave_afterCall (traced.allocated _ _ allocated)

/-- A record that is put under a new identifier gives it an origin. -/
theorem Traced.origin_of_created
    (traced : traffic.Traced settings requests) {record : StoredTrace}
    (written : (traffic.event turn call).written? = some record)
    (warranted :
      (requests turn.client).Warrants settings (traffic.knowledge turn.client)
        call)
    (reading :
      (traffic.knowledge turn.client).reading =
        some (record.trace.id, none)) :
    (traffic.afterCall turn call resume).HasOrigin settings requests
      record.trace.id := by
  rcases Request.chooses_or_allocated warranted reading with
    chooses | ⟨identifier, allocated, isForm⟩
  · refine Or.inl ⟨⟨turn.client, record⟩, ?_, chooses⟩
    rw [commits_afterCall, commit?_of_written written, if_pos rfl]
    exact List.mem_append_right _ List.mem_cons_self
  · have gave := traced.allocated turn.client identifier allocated
    exact Or.inr ⟨identifier, gave_afterCall gave, isForm⟩

end AfterCall

variable (settings : Settings) (requests : Client → Request)
  (ids : IdSequence) (turns : List (Turn Client))

theorem traced_run :
    ((start settings requests (World.initial ids)).run turns).Traced settings
      requests := by
  refine run_induction (Traced settings requests) ?_ turns ?_
  · refine ⟨?_, ?_⟩
    · intro client identifier allocated
      cases allocated
    · intro id record stored
      cases stored
  · intro earlier turn _ call resume _ traced isNext
    refine
      ⟨fun client identifier allocated => traced.allocated_afterCall allocated,
        ?_⟩
    intro id record stored
    cases written :
        (((start settings requests (World.initial ids)).run earlier).event turn
          call).written? with
    | none =>
        rw [store_of_not_written written] at stored
        exact (traced.stored id record stored).afterCall
    | some put =>
        obtain ⟨reading, _, _, left⟩ := commit_of_record earlier isNext written
        by_cases same : id = put.trace.id
        · subst same
          cases before :
              ((start settings requests (World.initial ids)).run
                earlier).world.store.get? put.trace.id with
          | some previous =>
              exact (traced.stored _ previous before).afterCall
          | none =>
              rw [before] at reading
              have warranted :=
                Request.warrants_of_demands (demands_next isNext) written
              exact traced.origin_of_created written warranted reading
        · rw [left, TraceStore.get?_put_of_ne _ same] at stored
          exact (traced.stored id record stored).afterCall

/-- The identifier that the source gives next is in use exactly if a client has
chosen it. -/
theorem wasChosen_iff
    {identifier : Identifier}
    (isNext :
      ((start settings requests (World.initial ids)).run
        turns).world.ids.allocate.2 = .ok identifier) :
    let reached := (start settings requests (World.initial ids)).run turns
    reached.WasChosen settings requests identifier.toHex ↔
      (reached.world.store.get? identifier.toHex).isSome := by
  intro reached
  constructor
  · rintro ⟨commit, member, _⟩
    obtain ⟨_, current⟩ :=
      life_of_run settings requests ids turns identifier.toHex
    have inRecords :
        commit.record ∈ recordsOf (reached.commits identifier.toHex) :=
      List.mem_map_of_mem member
    rw [current]
    exact List.getLast?_isSome.mpr (List.ne_nil_of_mem inRecords)
  · intro isStored
    obtain ⟨record, stored⟩ := Option.isSome_iff_exists.mp isStored
    have traced : reached.Traced settings requests :=
      traced_run settings requests ids turns
    rcases traced.stored _ record stored with wasChosen | ⟨other, gave, same⟩
    · exact wasChosen
    · rw [Identifier.toHex_injective same] at gave
      exact absurd gave (IdSequence.not_gave_of_allocate isNext)

end Traffic

/-! ## What is stored under a new identifier -/

/-- Whether a message tells no identifier: neither one for the trace nor those
of spans. -/
structure Wire.Trace.IsUnnamed (message : Wire.Trace) : Prop where
  info :
    ∀ info, message.info = some info → Check.givenTraceId? info = none
  spans : message.spans.getD [] = []

namespace Wire.Trace.IsUnnamed

variable {message : Wire.Trace} {settings : Settings}
  {submission : Submission} {principal : Option String}

theorem spanList_eq
    (unnamed : message.IsUnnamed)
    (accepted : Submission.ofRequest settings message = .ok submission) :
    submission.spanList = [] := by
  have noSpans := unnamed.spans
  unfold Submission.spanList
  rw [(Submission.parts_of_accepted accepted).2.2]
  cases isSent : message.spans with
  | none => rfl
  | some spans =>
      rw [isSent] at noSpans
      cases noSpans
      rfl

theorem traceId?_eq
    (unnamed : message.IsUnnamed)
    (accepted : Submission.ofRequest settings message = .ok submission) :
    submission.traceId? = none := by
  obtain ⟨info, isSent, isDraft⟩ := Submission.draft_of_accepted accepted
  have untold : submission.info.traceId = none := by
    rw [Check.traceId_of_draft isDraft, Check.traceKey?,
      unnamed.info info isSent, Option.bind_none]
  unfold Submission.traceId?
  rw [untold, unnamed.spanList_eq accepted]

/-- The identifier of a trace that comes without one is the next one of the
source. -/
theorem subject?_eq
    (unnamed : message.IsUnnamed) {ids : IdSequence} {id : String}
    (isSubject :
      (Request.submit principal message).subject? settings ids = some id) :
    ∃ identifier, ids.allocate.2 = .ok identifier ∧ identifier.toHex = id := by
  simp only [Request.subject?] at isSubject
  split at isSubject
  · cases isSubject
  · rename_i submission accepted
    rw [unnamed.traceId?_eq accepted, Option.none_or, Option.map_eq_some_iff]
      at isSubject
    obtain ⟨identifier, given, isForm⟩ := isSubject
    refine ⟨identifier, ?_, isForm⟩
    cases isNext : ids.allocate.2 with
    | error fault =>
        rw [isNext] at given
        cases given
    | ok next =>
        rw [isNext] at given
        cases given
        rfl

theorem trace_eq
    (unnamed : message.IsUnnamed) {trace : TraceArchive.Trace}
    (makes :
      (Request.submit principal message).Makes settings none trace) :
    ∃ submission, Submission.ofRequest settings message = .ok submission ∧
      trace = ⟨submission.info.toInfo trace.id, []⟩ := by
  cases makes with
  | @created _ _ submission traceId _ fits isResult =>
      refine ⟨submission, fits.accepted, ?_⟩
      obtain ⟨_, info, spans⟩ := Submission.parts_of_result isResult
      rw [Submission.id_of_result isResult]
      simp only [Submission.merged, unnamed.spanList_eq fits.accepted,
        List.map_nil] at info spans
      rw [← info, ← spans]

end Wire.Trace.IsUnnamed

/-- Whether a submission ends as if nothing was stored: it is answered as in the
empty store, and if it succeeds, it adds what the message tells under an
identifier that was not in use, with version one. -/
structure AddsOnly (settings : Settings) (message : Wire.Trace) (id : String)
    (store : TraceStore) (outcome alone : World × Reply) : Prop where
  unused : store.get? id = none
  unaffected : outcome.2 = alone.2
  refused : ∀ error, outcome.2 = .error error → outcome.1.store = store
  added :
    ∀ trace, outcome.2 = .ok trace →
      outcome.1.store = store.put ⟨trace, 1⟩ ∧
        ∃ submission, Submission.ofRequest settings message = .ok submission ∧
          trace = ⟨submission.info.toInfo id, []⟩

namespace Wire.Trace.IsUnnamed

variable {message : Wire.Trace} (unnamed : message.IsUnnamed)
  {settings : Settings} {principal : Option String} {world : World}
  {conditions : Conditions} {timeout : Nat}

include unnamed

/-- What is stored when such a message was submitted. -/
theorem made
    {trace : TraceArchive.Trace}
    (succeeded :
      ((Service.submit settings principal message).run.runWithin
        conditions.alone timeout world).2 = .ok trace) :
    ∃ identifier, world.ids.allocate.2 = .ok identifier ∧
      trace.id = identifier.toHex ∧
        let stored := world.store.get? identifier.toHex
        (Request.submit principal message).Makes settings stored trace ∧
          ((Service.submit settings principal message).run.runWithin
              conditions.alone timeout world).1.store =
            world.store.put ⟨trace, nextVersion stored⟩ := by
  obtain ⟨known, leaves, ended⟩ :=
    leaves_of_request settings (.submit principal message) world conditions
      timeout
  change Attempt.MayEnd _ _ _
    ((Service.submit settings principal message).run.runWithin
      conditions.alone timeout world).2 at ended
  rw [succeeded] at ended
  obtain ⟨isSubject, makes, left⟩ := leaves.made ended fun _ => rfl
  obtain ⟨identifier, isNext, isForm⟩ := unnamed.subject?_eq isSubject
  refine ⟨identifier, isNext, isForm.symm, ?_⟩
  rw [isForm]
  exact ⟨makes, left⟩

/-- Under an unused identifier such a submission is on its own. -/
theorem addsOnly
    {identifier : Identifier}
    (isNext : world.ids.allocate.2 = .ok identifier)
    (unused : world.store.get? identifier.toHex = none) :
    let submitted (store : TraceStore) :=
      (Service.submit settings principal message).run.runWithin
        conditions.alone timeout { world with store }
    AddsOnly settings message identifier.toHex world.store
      (submitted world.store) (submitted .empty) := by
  intro submitted
  refine ⟨unused, ?_, ?_, ?_⟩
  · have resembles :
        World.Resembles
          ((Request.submit principal message).subject? settings world.ids)
          world { world with store := .empty } := by
      refine ⟨rfl, ?_⟩
      intro id isSubject
      obtain ⟨given, isGiven, rfl⟩ := unnamed.subject?_eq isSubject
      rw [isNext] at isGiven
      cases isGiven
      exact unused.symm
    exact
      (local_of_request settings (.submit principal message) resembles
        conditions timeout).1.symm
  · intro error failed
    obtain ⟨known, leaves, ended⟩ :=
      leaves_of_request settings (.submit principal message) world conditions
        timeout
    change Attempt.MayEnd _ _ _ (submitted world.store).2 at ended
    rw [failed] at ended
    exact leaves.unwritten ended
  · intro trace succeeded
    obtain ⟨given, isGiven, isForm, makes, left⟩ := unnamed.made succeeded
    rw [isNext] at isGiven
    cases isGiven
    rw [unused] at makes left
    obtain ⟨submission, accepted, isTrace⟩ := unnamed.trace_eq makes
    rw [isForm] at isTrace
    exact ⟨left, submission, accepted, isTrace⟩

end Wire.Trace.IsUnnamed

namespace Traffic

variable {Client : Type} [DecidableEq Client]

/-- A submission without an identifier succeeds only with the next one that the
source gives. Unless a client has chosen that one, nothing that is stored plays
a part in it, and nothing is done but to add the submitted trace. Otherwise a
submission that succeeds replaces the record that is there. -/
theorem assigned_of_run
    (settings : Settings) (requests : Client → Request) (ids : IdSequence)
    (turns : List (Turn Client)) (principal : Option String)
    {message : Wire.Trace} (unnamed : message.IsUnnamed)
    (conditions : Conditions) (timeout : Nat) :
    let reached := (start settings requests (World.initial ids)).run turns
    let submitted (store : TraceStore) :=
      (Service.submit settings principal message).run.runWithin
        conditions.alone timeout { reached.world with store }
    let store := reached.world.store
    let outcome := submitted store
    (∀ trace, outcome.2 = .ok trace →
      ∃ identifier, reached.world.ids.allocate.2 = .ok identifier ∧
        trace.id = identifier.toHex) ∧
    ∀ identifier, reached.world.ids.allocate.2 = .ok identifier →
      let id := identifier.toHex
      (¬reached.WasChosen settings requests id →
        AddsOnly settings message id store outcome (submitted .empty)) ∧
      (reached.WasChosen settings requests id →
        ∃ record, store.get? id = some record ∧
          ∀ trace, outcome.2 = .ok trace →
            outcome.1.store = store.put ⟨trace, record.version + 1⟩) := by
  intro reached submitted store outcome
  refine ⟨?_, ?_⟩
  · intro trace succeeded
    obtain ⟨identifier, isNext, isForm, _⟩ := unnamed.made succeeded
    exact ⟨identifier, isNext, isForm⟩
  intro identifier isNext id
  have isUsed :
      reached.WasChosen settings requests id ↔ (store.get? id).isSome :=
    wasChosen_iff settings requests ids turns isNext
  refine ⟨?_, ?_⟩
  · intro notChosen
    rw [isUsed, Option.not_isSome_iff_eq_none] at notChosen
    exact unnamed.addsOnly isNext notChosen
  · intro chosen
    obtain ⟨record, stored⟩ := Option.isSome_iff_exists.mp (isUsed.mp chosen)
    refine ⟨record, stored, ?_⟩
    intro trace succeeded
    obtain ⟨given, isGiven, _, _, left⟩ := unnamed.made succeeded
    rw [isNext] at isGiven
    cases isGiven
    change outcome.1.store =
      store.put ⟨trace, nextVersion (store.get? id)⟩ at left
    rw [stored] at left
    exact left

/-- A message about a trace in progress with a tag, and with an identifier or
without one. -/
def taggedMessage (traceId : Option String) (tag : String) : Wire.Trace where
  info :=
    some
      { traceId
        location := some { experiment := some (some "1") }
        requestTime := some default
        state := some .inProgress
        tags := KeyMap.empty.insert tag (.string "") }

/-- The only client submits a trace under an identifier that it chose. -/
def choosingRequest (id : String) (_ : Unit) : Request :=
  .submit none (taggedMessage (some id) "first")

theorem isUnnamed_taggedMessage (tag : String) :
    (taggedMessage none tag).IsUnnamed := by
  refine ⟨?_, rfl⟩
  intro info isInfo
  cases isInfo
  rfl

/-- What a client has stored under another identifier plays no part. -/
theorem assigned_taggedMessage :
    let reached :=
      (start {} (choosingRequest "01") (World.initial (.start 0))).run
        (List.replicate 6 { client := () })
    let submitted (store : TraceStore) :=
      (Service.submit {} none (taggedMessage none "second")).run.runWithin
        (Conditions.alone {}) 0 { reached.world with store }
    let identifier : Identifier := ⟨List.replicate 16 0⟩
    (reached.world.store.get? "01").isSome ∧
      (submitted reached.world.store).2.toOption.map
          (fun trace => trace.info.tags.entries) =
        some [("second", "")] ∧
      AddsOnly {} (taggedMessage none "second") identifier.toHex
        reached.world.store (submitted reached.world.store)
        (submitted .empty) := by
  intro reached submitted identifier
  have isNext : reached.world.ids.allocate.2 = .ok identifier := by
    decide +kernel
  have notChosen :
      ¬reached.WasChosen {} (choosingRequest "01") identifier.toHex := by
    have noCommits :
        (reached.commits identifier.toHex).map Commit.client = [] := by
      decide +kernel
    rintro ⟨commit, member, _⟩
    rw [List.map_eq_nil_iff.mp noCommits] at member
    cases member
  refine ⟨by decide +kernel, by decide +kernel, ?_⟩
  -- Otherwise the run would be evaluated to compare it with itself.
  with_reducible
    exact
      ((assigned_of_run {} (choosingRequest "01") (.start 0)
          (List.replicate 6 { client := () }) none
          (isUnnamed_taggedMessage "second") {} 0).2
        identifier isNext).1 notChosen

/-- A client that chooses the identifier that is given next has a later
submission without one merged into its own trace. -/
theorem merged_into_chosen :
    let id := "00000000000000000000000000000000"
    let reached :=
      (start {} (choosingRequest id) (World.initial (.start 0))).run
        (List.replicate 6 { client := () })
    let submitted (store : TraceStore) :=
      (Service.submit {} none (taggedMessage none "second")).run.runWithin
        (Conditions.alone {}) 0 { reached.world with store }
    let outcome := submitted reached.world.store
    (reached.world.store.get? id).map StoredTrace.version = some 1 ∧
      (outcome.1.store.get? id).map
          (fun record => (record.version, record.trace.info.tags.entries)) =
        some (2, [("first", ""), ("second", "")]) ∧
      ¬AddsOnly {} (taggedMessage none "second") id reached.world.store
        outcome (submitted .empty) := by
  intro id reached submitted outcome
  have before :
      (reached.world.store.get? id).map StoredTrace.version = some 1 := by
    decide +kernel
  refine ⟨before, by decide +kernel, ?_⟩
  intro addsOnly
  rw [addsOnly.unused] at before
  cases before

end Traffic

end TraceArchive
