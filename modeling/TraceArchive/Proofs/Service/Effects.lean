import TraceArchive.Proofs.Service.Commits

/-!
# Effects of requests

What a request leaves of the store when nobody else writes meanwhile, however
the calls that it makes end. A request that fails leaves the store as it was; one
that succeeds changes the record under one identifier at most:
`effect_of_request`. A tag is removed under its key without the blanks around it,
so that under a key as it is given there is an exception; this is what
`Request.effect_with_room` tells, where versions have 64 bits.
-/

namespace TraceArchive

namespace Request

/-! ## What a request is about -/

/-- The identifier of the trace that a request is about, if it gets that far:
the one that it tells, else the next one that the source gives. -/
def subject? (settings : Settings) (ids : IdSequence) :
    Request → Option String
  | .submit _ message =>
      match Submission.ofRequest settings message with
      | .error _ => none
      | .ok submission =>
          submission.traceId?.or
            (ids.allocate.2.toOption.map Identifier.toHex)
  | .get named => Identifier.keyOf? named
  | .setTag _ named _ _ => Identifier.keyOf? named
  | .deleteTag _ named _ => Identifier.keyOf? named

/-- Whether a request is to change what is stored under its identifier. A tag is
to be removed if there is one under the key as it is given. -/
def alters (stored : Option StoredTrace) : Request → Bool
  | .submit _ _ => true
  | .get _ => false
  | .setTag _ _ _ _ => true
  | .deleteTag _ _ given =>
      stored.any fun record => record.trace.info.tags.contains given

/-- Whether a request that succeeds writes, given what is stored under its
identifier. A tag is removed if there is one under the given key without the
blanks around it, whether or not there is one under the key as it is given. -/
def writes (stored : Option StoredTrace) : Request → Bool
  | .submit _ _ => true
  | .get _ => false
  | .setTag _ _ _ _ => true
  | .deleteTag _ _ given =>
      stored.any fun record =>
        record.trace.info.tags.contains (Text.trimmed given)

theorem key_of_tagKey
    {given key : String} (isTagKey : Service.tagKey given = .ok key) :
    Text.trimmed given = key := by
  simp only [Service.tagKey] at isTagKey
  split at isTagKey
  · cases isTagKey
  · exact Except.ok.inj isTagKey

theorem keyOf?_of_traceKey
    {named traceId : String}
    (isTraceKey : Service.traceKey named = .ok traceId) :
    Identifier.keyOf? named = some traceId := by
  unfold Service.traceKey at isTraceKey
  split at isTraceKey
  · rename_i key isKey
    rw [isKey, Except.ok.inj isTraceKey]
  · cases isTraceKey

theorem writes_of_makes
    {settings : Settings} {request : Request} {stored : Option StoredTrace}
    {trace : Trace} (makes : request.Makes settings stored trace) :
    request.writes stored = true := by
  cases makes with
  | created _ _ => rfl
  | updated _ _ _ => rfl
  | tagged _ => rfl
  | untagged isTagKey present =>
      simpa [writes, key_of_tagKey isTagKey] using present

/-- What a request writes is what it is to change, except that a tag may be
removed under a key with blanks around it. -/
theorem alters_eq_writes_or
    (request : Request) (stored : Option StoredTrace) :
    request.alters stored = request.writes stored ∨
      ∃ principal named given,
        request = .deleteTag principal named given ∧
          Text.trimmed given ≠ given := by
  cases request with
  | deleteTag principal named given =>
      by_cases plain : Text.trimmed given = given
      · left
        rw [alters, writes, plain]
      · exact Or.inr ⟨principal, named, given, rfl, plain⟩
  | _ => exact Or.inl rfl

/-- The tag under a key with blanks around it stays as it was. -/
theorem Makes.find?_of_padded
    {settings : Settings} {principal : Option String} {named given : String}
    {stored : Option StoredTrace} {trace : Trace}
    (makes :
      (Request.deleteTag principal named given).Makes settings stored trace)
    (padded : Text.trimmed given ≠ given) :
    trace.info.tags.find? given =
      stored.bind fun record => record.trace.info.tags.find? given := by
  cases makes with
  | untagged isTagKey _ =>
      have different := padded.symm
      rw [key_of_tagKey isTagKey] at different
      exact KeyMap.find?_erase_of_ne _ different

section Subject

variable {settings : Settings} {request : Request} {known : Knowledge}
  {ids : IdSequence}

/-- A warranted write is about the identifier that was read. -/
theorem subject?_of_warrants
    {call : Call} (warranted : request.Warrants settings known call)
    (allocated : ∀ identifier, known.allocated = some identifier →
      ids.allocate.2 = .ok identifier) :
    ∃ traceId found, known.reading = some (traceId, found) ∧
      request.subject? settings ids = some traceId := by
  have ofGrounds :
      ∀ {principal : Option String} {message : Wire.Trace}
        {submission : Submission} {traceId : String},
        known.Grounds settings principal message submission traceId →
          (Request.submit principal message).subject? settings ids =
            some traceId := by
    intro principal message submission traceId grounds
    simp only [subject?, grounds.accepted]
    rcases grounds.named with told | ⟨untold, _, identifier, _, given, same⟩
    · rw [told]
      rfl
    · rw [untold, allocated identifier given, same]
      rfl
  cases warranted with
  | created grounds reading _ => exact ⟨_, _, reading, ofGrounds grounds⟩
  | updated grounds reading _ _ => exact ⟨_, _, reading, ofGrounds grounds⟩
  | tagged _ isTraceKey reading _ =>
      refine ⟨_, _, reading, ?_⟩
      rw [subject?]
      exact keyOf?_of_traceKey isTraceKey
  | untagged _ isTraceKey reading _ _ =>
      refine ⟨_, _, reading, ?_⟩
      rw [subject?]
      exact keyOf?_of_traceKey isTraceKey

/-- A request that only reads answers with the trace that it read. -/
theorem reading_of_onlyReads
    {trace : Trace} (onlyReads : request.OnlyReads known trace) :
    ∃ traceId stored, known.reading = some (traceId, some stored) ∧
      request.subject? settings ids = some traceId ∧
        request.writes (some stored) = false ∧ stored.trace = trace := by
  cases onlyReads with
  | got isTraceKey reading =>
      refine ⟨_, _, reading, ?_, rfl, rfl⟩
      rw [subject?]
      exact keyOf?_of_traceKey isTraceKey
  | untagged isTagKey isTraceKey reading _ absent =>
      refine ⟨_, _, reading, ?_, ?_, rfl⟩
      · rw [subject?]
        exact keyOf?_of_traceKey isTraceKey
      · simpa [writes, key_of_tagKey isTagKey] using absent

end Subject

/-! ## While a request runs -/

/-- What a request that knows something has left of the world in which it
started. -/
structure Leaves (settings : Settings) (request : Request) (before : World)
    (known : Knowledge) (world : World) : Prop where
  /-- What was read was stored in the beginning. -/
  read : ∀ id found, known.reading = some (id, found) →
    before.store.get? id = found
  unallocated : known.stage = .underway → known.allocated = none →
    world.ids = before.ids
  allocated : ∀ identifier, known.allocated = some identifier →
    before.ids.allocate.2 = .ok identifier
  unwritten : (∀ record, known.stage ≠ .wrote record) →
    world.store = before.store
  /-- What was written is what the request makes of what was stored in the
  beginning. -/
  written : ∀ record, known.stage = .wrote record →
    let stored := before.store.get? record.trace.id
    request.subject? settings before.ids = some record.trace.id ∧
      request.Makes settings stored record.trace ∧
        record.version = nextVersion stored ∧
          world.store = before.store.put record

namespace Leaves

variable {settings : Settings} {request : Request} {before world : World}
  {known : Knowledge} {conditions : Conditions} {deadline : Nat}

theorem start : Leaves settings request before {} before := by
  refine ⟨?_, fun _ _ => rfl, ?_, fun _ => rfl, ?_⟩
  · intro id found reading
    cases reading
  · intro identifier allocated
    cases allocated
  · intro record wrote
    cases wrote

section Answer

variable {call : Call}

theorem store_eq
    (leaves : Leaves settings request before known world)
    (demanded : (request.contract settings).demands known call) :
    world.store = before.store := by
  refine leaves.unwritten ?_
  intro record wrote
  rw [demanded.1] at wrote
  cases wrote

theorem read_answer
    (leaves : Leaves settings request before known world)
    (demanded : (request.contract settings).demands known call)
    {id : String} {found : Option StoredTrace}
    (reading :
      (known.learn call (world.answer conditions deadline call).2).reading =
        some (id, found)) :
    before.store.get? id = found := by
  rw [known.learn_reading ⟨call, _⟩] at reading
  rcases Option.or_eq_some_iff.mp reading with isRead | ⟨_, readBefore⟩
  · rw [← leaves.store_eq demanded]
    exact World.get?_of_read? isRead
  · exact leaves.read id found readBefore

theorem allocated_answer
    (leaves : Leaves settings request before known world)
    (demanded : (request.contract settings).demands known call)
    {identifier : Identifier}
    (allocated :
      (known.learn call (world.answer conditions deadline call).2).allocated =
        some identifier) :
    before.ids.allocate.2 = .ok identifier := by
  rw [known.learn_allocated ⟨call, _⟩] at allocated
  rcases Option.or_eq_some_iff.mp allocated with given | ⟨_, givenBefore⟩
  · have unallocated : known.allocated = none :=
      @allocated_of_demands _ _ _ ⟨call, _⟩ demanded _ given
    rw [← leaves.unallocated demanded.1 unallocated]
    exact World.allocate_of_allocated? given
  · exact leaves.allocated identifier givenBefore

theorem unallocated_answer
    (leaves : Leaves settings request before known world)
    (demanded : (request.contract settings).demands known call)
    (underway :
      (known.learn call (world.answer conditions deadline call).2).stage =
        .underway)
    (unallocated :
      (known.learn call (world.answer conditions deadline call).2).allocated =
        none) :
    (world.answer conditions deadline call).1.ids = before.ids := by
  have unallocatedBefore : known.allocated = none := by
    rw [known.learn_allocated ⟨call, _⟩, Option.or_eq_none_iff] at unallocated
    exact unallocated.2
  rw [← leaves.unallocated demanded.1 unallocatedBefore]
  refine World.ids_answer call ?_
  rintro rfl
  generalize (world.answer conditions deadline .allocateId).2 = answer
    at underway unallocated
  rcases answer with identifier | fault | _
  · cases unallocated
  · cases underway
  · cases underway

theorem written_answer
    (leaves : Leaves settings request before known world)
    (demanded : (request.contract settings).demands known call)
    {record : StoredTrace}
    (wrote :
      (known.learn call
        (world.answer conditions.alone deadline call).2).stage =
          .wrote record) :
    let stored := before.store.get? record.trace.id
    request.subject? settings before.ids = some record.trace.id ∧
      request.Makes settings stored record.trace ∧
        record.version = nextVersion stored ∧
          (world.answer conditions.alone deadline call).1.store =
            before.store.put record := by
  intro stored
  have written :
      Exchange.written?
          ⟨call, (world.answer conditions.alone deadline call).2⟩ =
        some record := by
    rcases known.written_of_stage ⟨call, _⟩ wrote with earlier | written
    · rw [demanded.1] at earlier
      cases earlier
    · exact written
  obtain ⟨id, expected, trace, isCall, accepted, left⟩ :=
    World.write_of_written? written
  have warranted : request.Warrants settings known call :=
    @warrants_of_demands _ _ _ ⟨call, _⟩ demanded _ written
  rw [leaves.store_eq demanded] at accepted left
  obtain ⟨reading, makes, version, isPut⟩ :=
    commit_of_warrants warranted isCall accepted
      fun found reading _ => leaves.read id (some found) reading
  obtain ⟨traceId, found, isReading, isSubject⟩ :=
    subject?_of_warrants warranted leaves.allocated
  rw [reading] at isReading
  cases isReading
  refine ⟨isSubject, makes, version, ?_⟩
  rw [World.store_answer, leaves.store_eq demanded, left, isPut]

/-- What a request has left is kept up by its next call. -/
theorem answer
    (leaves : Leaves settings request before known world)
    (demanded : (request.contract settings).demands known call) :
    Leaves settings request before
      (known.learn call (world.answer conditions.alone deadline call).2)
      (world.answer conditions.alone deadline call).1 := by
  refine
    ⟨fun id found reading => leaves.read_answer demanded reading,
      leaves.unallocated_answer demanded,
      fun identifier allocated => leaves.allocated_answer demanded allocated,
      ?_, fun record wrote => leaves.written_answer demanded wrote⟩
  intro notWritten
  rw [World.store_answer, leaves.store_eq demanded]
  refine @TraceStore.after_of_not_written before.store ⟨call, _⟩ ?_
  rw [Option.eq_none_iff_forall_ne_some]
  intro record written
  exact notWritten record (known.stage_of_written ⟨call, _⟩ written)

end Answer

/-- What a request that succeeds has done. -/
theorem effect
    (leaves : Leaves settings request before known world) {trace : Trace}
    (answered : request.MayAnswer known trace) :
    ∃ id, request.subject? settings before.ids = some id ∧
      let stored := before.store.get? id
      if request.writes stored then
        trace.id = id ∧
          world.store.get? id = some ⟨trace, nextVersion stored⟩ ∧
            ∀ other, other ≠ id →
              world.store.get? other = before.store.get? other
      else
        stored.map StoredTrace.trace = some trace ∧
          world.store = before.store := by
  unfold MayAnswer at answered
  cases stage : known.stage with
  | underway =>
      rw [stage] at answered
      obtain ⟨id, stored, reading, isSubject, writesNot, rfl⟩ :=
        reading_of_onlyReads answered
      refine ⟨id, isSubject, ?_⟩
      simp only [leaves.read id (some stored) reading, writesNot,
        Bool.false_eq_true, if_false]
      refine ⟨rfl, leaves.unwritten ?_⟩
      intro record wrote
      rw [stage] at wrote
      cases wrote
  | refused =>
      rw [stage] at answered
      exact answered.elim
  | wrote record =>
      rw [stage] at answered
      subst answered
      obtain ⟨isSubject, makes, version, left⟩ := leaves.written record stage
      refine ⟨record.trace.id, isSubject, ?_⟩
      simp only [writes_of_makes makes, if_true, left, ← version]
      refine ⟨trivial, TraceStore.get?_put_self _ record, ?_⟩
      intro other different
      exact TraceStore.get?_put_of_ne _ different

/-- A tag that is to be removed under a key with blanks around it stays as it
was. -/
theorem find?_of_padded
    {principal : Option String} {named given : String}
    (leaves :
      Leaves settings (.deleteTag principal named given) before known world)
    {trace : Trace}
    (answered : (Request.deleteTag principal named given).MayAnswer known trace)
    (padded : Text.trimmed given ≠ given) {id : String}
    (isSubject :
      (Request.deleteTag principal named given).subject? settings before.ids =
        some id) :
    trace.info.tags.find? given =
      (before.store.get? id).bind fun record =>
        record.trace.info.tags.find? given := by
  unfold MayAnswer at answered
  cases stage : known.stage with
  | underway =>
      rw [stage] at answered
      obtain ⟨_, stored, reading, isRead, -, rfl⟩ :=
        reading_of_onlyReads answered
      cases isSubject.symm.trans isRead
      rw [leaves.read id (some stored) reading]
      rfl
  | refused =>
      rw [stage] at answered
      exact answered.elim
  | wrote record =>
      rw [stage] at answered
      subst answered
      obtain ⟨isWritten, makes, -⟩ := leaves.written record stage
      cases isSubject.symm.trans isWritten
      exact makes.find?_of_padded padded

/-- A request that always writes answers with what it made of what was
stored. -/
theorem made
    (leaves : Leaves settings request before known world) {trace : Trace}
    (answered : request.MayAnswer known trace)
    (writes : ∀ stored, request.writes stored = true) :
    let stored := before.store.get? trace.id
    request.subject? settings before.ids = some trace.id ∧
      request.Makes settings stored trace ∧
        world.store = before.store.put ⟨trace, nextVersion stored⟩ := by
  unfold MayAnswer at answered
  cases stage : known.stage with
  | underway =>
      rw [stage] at answered
      obtain ⟨_, stored, _, _, writesNot, _⟩ :=
        @reading_of_onlyReads settings _ _ before.ids _ answered
      rw [writes] at writesNot
      cases writesNot
  | refused =>
      rw [stage] at answered
      exact answered.elim
  | wrote record =>
      rw [stage] at answered
      subst answered
      obtain ⟨isSubject, makes, version, left⟩ := leaves.written record stage
      refine ⟨isSubject, makes, ?_⟩
      rw [left, ← version]

end Leaves

end Request

/-! ## When a request is over -/

/-- What a request that is over knows, and has left of its world. -/
theorem leaves_of_request
    (settings : Settings) (request : Request) (world : World)
    (conditions : Conditions) (timeout : Nat) :
    let outcome :=
      (request.attempt settings).run.runWithin conditions.alone timeout world
    ∃ known, request.Leaves settings world known outcome.1 ∧
      Attempt.MayEnd request.MayAnswer Request.MayFail known outcome.2 := by
  refine
    (Attempt.keeps_iff.mp (request.keeps_attempt)).runUntil
      (request.Leaves settings world) .start ?_
  intro known before call leaves demanded
  exact ⟨Request.admits_answer call, leaves.answer demanded⟩

/-- However its calls end, a request that fails leaves the store as it was. One
that succeeds and writes leaves its answer under its identifier, with the next
version, and all other records as they were. One that succeeds and does not
write answers with what is stored. -/
theorem effect_of_request
    (settings : Settings) (request : Request) (world : World)
    (conditions : Conditions) (timeout : Nat) :
    let outcome :=
      (request.attempt settings).run.runWithin conditions.alone timeout world
    match outcome.2 with
    | .error _ => outcome.1.store = world.store
    | .ok trace =>
        ∃ id, request.subject? settings world.ids = some id ∧
          let stored := world.store.get? id
          if request.writes stored then
            trace.id = id ∧
              outcome.1.store.get? id = some ⟨trace, nextVersion stored⟩ ∧
                ∀ other, other ≠ id →
                  outcome.1.store.get? other = world.store.get? other
          else
            stored.map StoredTrace.trace = some trace ∧
              outcome.1.store = world.store := by
  intro outcome
  obtain ⟨known, leaves, ended⟩ :
      ∃ known, request.Leaves settings world known outcome.1 ∧
        Attempt.MayEnd request.MayAnswer Request.MayFail known outcome.2 :=
    leaves_of_request settings request world conditions timeout
  cases isResult : outcome.2 with
  | error error =>
      rw [isResult] at ended
      exact leaves.unwritten ended
  | ok trace =>
      rw [isResult] at ended
      exact leaves.effect ended

namespace Request

/-- However its calls end, a request that fails leaves the store as it was. One
that succeeds is about one trace. If it writes, exactly the record of this trace
is created in version one or replaced in the next version, which has 64 bits, all
others stay, and the answer is the trace that is stored then; if it does not
write, nothing changes, and the answer is the trace that is stored. It writes
exactly what it is to change, with one exception: a tag that is to be removed
under a key with blanks around it stays as it is. -/
theorem effect_with_room
    (settings : Settings) (request : Request) (world : World)
    (conditions : Conditions) (timeout : Nat)
    (room :
      ∀ id record, request.subject? settings world.ids = some id →
        world.store.get? id = some record → record.HasRoom) :
    let outcome :=
      (request.attempt settings).run.runWithin conditions.alone timeout world
    match outcome.2 with
    | .error _ => outcome.1.store = world.store
    | .ok trace =>
        ∃ id, request.subject? settings world.ids = some id ∧
          let stored := world.store.get? id
          (if request.writes stored then
            trace.id = id ∧
              outcome.1.store.get? id = some ⟨trace, nextVersion stored⟩ ∧
                nextVersion stored < UInt64.size ∧
                  ∀ other, other ≠ id →
                    outcome.1.store.get? other = world.store.get? other
          else
            stored.map StoredTrace.trace = some trace ∧
              outcome.1.store = world.store) ∧
            (request.alters stored = request.writes stored ∨
              ∃ principal named given,
                request = .deleteTag principal named given ∧
                  Text.trimmed given ≠ given ∧
                    trace.info.tags.find? given =
                      stored.bind fun record =>
                        record.trace.info.tags.find? given) := by
  intro outcome
  obtain ⟨known, leaves, ended⟩ :
      ∃ known, request.Leaves settings world known outcome.1 ∧
        Attempt.MayEnd request.MayAnswer Request.MayFail known outcome.2 :=
    leaves_of_request settings request world conditions timeout
  cases isResult : outcome.2 with
  | error error =>
      rw [isResult] at ended
      exact leaves.unwritten ended
  | ok trace =>
      rw [isResult] at ended
      obtain ⟨id, isSubject, effect⟩ := leaves.effect ended
      have inWord : nextVersion (world.store.get? id) < UInt64.size := by
        cases isStored : world.store.get? id with
        | none => decide
        | some record => exact room id record isSubject isStored
      refine ⟨id, isSubject, ?_, ?_⟩
      · split
        · rename_i writes
          rw [if_pos writes] at effect
          exact ⟨effect.1, effect.2.1, inWord, effect.2.2⟩
        · rename_i writesNot
          rw [if_neg writesNot] at effect
          exact effect
      · rcases alters_eq_writes_or request (world.store.get? id) with
          same | ⟨principal, named, given, rfl, padded⟩
        · exact Or.inl same
        · exact
            Or.inr
              ⟨principal, named, given, rfl, padded,
                leaves.find?_of_padded ended padded isSubject⟩

/-- A record with a tag whose key has blanks around it. -/
def paddedRecord : StoredTrace where
  trace :=
    { info :=
        { TraceInfo.plain "01" (.experiment "1") default with
          tags := KeyMap.empty.insert " env " "prod" }
      spans := [] }
  version := 1

/-- A world in which just this record is stored. -/
def paddedWorld : World :=
  { World.initial (.start 0) with store := TraceStore.empty.put paddedRecord }

/-- A tag under another key is set there, in version two. -/
theorem effect_paddedWorld :
    let outcome :=
      ((Request.setTag none "01" "env" "test").attempt {}).run.runWithin
        (Conditions.alone {}) 0 paddedWorld
    ∃ trace, outcome.2 = .ok trace ∧
      outcome.1.store.get? "01" = some ⟨trace, 2⟩ ∧
        ∀ other, other ≠ "01" →
          outcome.1.store.get? other = paddedWorld.store.get? other := by
  intro outcome
  have isSubject :
      (Request.setTag none "01" "env" "test").subject? {} paddedWorld.ids =
        some "01" := by
    decide +kernel
  have isStored : paddedWorld.store.get? "01" = some paddedRecord := rfl
  have room :
      ∀ id record,
        (Request.setTag none "01" "env" "test").subject? {} paddedWorld.ids =
            some id →
          paddedWorld.store.get? id = some record → record.HasRoom := by
    intro id record isId stored
    cases isSubject.symm.trans isId
    cases isStored.symm.trans stored
    decide
  have effect :=
    effect_with_room {} (.setTag none "01" "env" "test") paddedWorld {} 0 room
  have succeeds : outcome.2.toOption.isSome = true := by decide +kernel
  cases isResult : outcome.2 with
  | error error =>
      rw [isResult] at succeeds
      cases succeeds
  | ok trace =>
      simp only [outcome, isResult] at effect
      obtain ⟨id, isId, written, -⟩ := effect
      cases isSubject.symm.trans isId
      rw [isStored] at written
      obtain ⟨-, isLeft, -, others⟩ := written
      exact ⟨trace, rfl, isLeft, others⟩

/-- There is a tag under the key that is given, and its removal succeeds; but it
is still there, and nothing was written. -/
theorem kept_paddedWorld :
    let request : Request := .deleteTag none "01" " env "
    let outcome :=
      (request.attempt {}).run.runWithin (Conditions.alone {}) 0 paddedWorld
    request.alters (paddedWorld.store.get? "01") = true ∧
      outcome.2.toOption.isSome = true ∧
        (outcome.1.store.get? "01").map (fun record =>
            (record.version, record.trace.info.tags.contains " env ")) =
          some (1, true) := by
  decide +kernel

end Request

end TraceArchive
