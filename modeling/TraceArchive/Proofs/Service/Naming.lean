import TraceArchive.Proofs.Check.Image
import TraceArchive.Proofs.Service.Assignment
import TraceArchive.Proofs.Service.CommitOrder
import TraceArchive.Proofs.Service.Merging
import TraceArchive.Proofs.Service.Tags

/-!
# Naming traces

A request names a trace by any spelling of its identifier, and a submission that
gives none by the first of its spans. Whatever was submitted under one name is
found under every name of the same identifier, and under no other: the main
statement is `named_of_run`.
-/

namespace TraceArchive

/-! ## Names of traces -/

/-- Whether a message names the trace with an identifier: by a spelling of it, or,
if it gives nothing but blanks, by the identifier that its first span carries. -/
inductive Wire.Trace.Names (message : Wire.Trace) (identifier : Identifier) :
    Prop
  | spelled {info : Wire.TraceInfo} {text : String}
      (isInfo : message.info = some info) (given : info.traceId = some text)
      (spells : identifier.IsSpelledBy text) : Names message identifier
  | carried {info : Wire.TraceInfo} {span : Wire.Span} {rest : List Wire.Span}
      (isInfo : message.info = some info)
      (blank :
        ∀ text, info.traceId = some text → Text.IsTrimmed [] text.toList)
      (first : message.spans = some (span :: rest))
      (carries : span.traceId = some identifier) : Names message identifier

namespace Request

/-- Whether a request names the trace with an identifier. -/
def Names (identifier : Identifier) : Request → Prop
  | .submit _ message => message.Names identifier
  | .get named => identifier.IsSpelledBy named
  | .setTag _ named _ _ => identifier.IsSpelledBy named
  | .deleteTag _ named _ => identifier.IsSpelledBy named

/-- Whether a request submits a trace without any identifier. -/
def IsUnnamed : Request → Prop
  | .submit _ message => message.IsUnnamed
  | _ => False

end Request

namespace Check

variable {info : Wire.TraceInfo}

/-- The key that a message gives is that of the identifier that it spells. -/
theorem traceKey?_eq_some_iff {key : String} :
    traceKey? info = some key ↔
      ∃ text, info.traceId = some text ∧ Identifier.keyOf? text = some key := by
  have sameKey :
      ∀ text, Identifier.keyOf? (Text.trimmed text) =
        Identifier.keyOf? text := by
    intro text
    rw [Identifier.keyOf?, Text.trimmed_trimmed, Identifier.keyOf?]
  simp only [traceKey?, givenTraceId?, Option.bind_eq_some_iff,
    nonBlank?_eq_some_iff]
  constructor
  · rintro ⟨_, ⟨text, given, rfl, _⟩, isKey⟩
    exact ⟨text, given, sameKey text ▸ isKey⟩
  · rintro ⟨text, given, isKey⟩
    refine ⟨_, ⟨text, given, rfl, ?_⟩, (sameKey text).trans isKey⟩
    exact
      ((Identifier.keysAreNormal.keyOf?_iff text key).mp isKey).1.filled

theorem givenTraceId?_eq_none_iff :
    givenTraceId? info = none ↔
      ∀ text, info.traceId = some text → Text.IsTrimmed [] text.toList := by
  have isBlank :
      ∀ text, Text.trimmed text = "" ↔ Text.IsTrimmed [] text.toList := by
    intro text
    rw [← Text.trim_eq_iff, Text.trimmed, ← String.toList_inj,
      String.toList_ofList, String.toList_empty]
  rw [Option.eq_none_iff_forall_ne_some]
  constructor
  · intro nothing text given
    refine (isBlank text).mp (Classical.byContradiction fun filled => ?_)
    exact
      nothing _ (nonBlank?_eq_some_iff.mpr ⟨text, given, rfl, filled⟩)
  · intro blank content isContent
    obtain ⟨text, given, rfl, filled⟩ := nonBlank?_eq_some_iff.mp isContent
    exact filled ((isBlank text).mpr (blank text given))

end Check

namespace Submission

variable {settings : Settings} {message : Wire.Trace} {submission : Submission}

/-- The first span of a submission carries what the first span of its message
carries. -/
theorem head_of_accepted
    (accepted : ofRequest settings message = .ok submission) :
    submission.spanList.head?.map Span.traceId =
      (message.spans.getD []).head?.bind Wire.Span.traceId := by
  obtain ⟨isSpans, areAccepted⟩ := spans_of_accepted accepted
  rw [spanList, isSpans]
  cases isSent : message.spans with
  | none => rfl
  | some spans =>
      cases spans with
      | nil => rfl
      | cons first rest =>
          rw [isSent] at areAccepted
          obtain ⟨path, span, checked⟩ := areAccepted first List.mem_cons_self
          have image := Check.image_of_checkSpan checked
          simp [Check.span_of_checkSpan checked, image.traceId]

/-- The identifier that an accepted message tells is the one that it names. -/
theorem traceId?_eq_some_iff
    (accepted : ofRequest settings message = .ok submission) {key : String} :
    submission.traceId? = some key ↔
      ∃ identifier, message.Names identifier ∧ identifier.toHex = key := by
  obtain ⟨info, isInfo, checked⟩ := info_of_accepted accepted
  have isKey :=
    Check.traceId_of_draft (Check.draft_of_checkInfo checked).2
  have head := head_of_accepted accepted
  unfold traceId?
  constructor
  · intro told
    split at told
    · rename_i named
      cases told
      rw [isKey, Check.traceKey?_eq_some_iff] at named
      obtain ⟨text, given, ofText⟩ := named
      obtain ⟨identifier, spells, isForm⟩ :=
        Identifier.keyOf?_eq_some_iff.mp ofText
      exact ⟨identifier, .spelled isInfo given spells, isForm⟩
    · rename_i untold
      have blank :=
        Check.givenTraceId?_eq_none_iff.mp
          (Check.givenTraceId?_eq_none checked untold)
      split at told
      · rename_i span rest isList
        cases told
        rw [isList, List.head?_cons, Option.map_some] at head
        obtain ⟨sent, isFirst, carries⟩ := Option.bind_eq_some_iff.mp head.symm
        obtain ⟨others, isSent⟩ := List.head?_eq_some_iff.mp isFirst
        have first : message.spans = some (sent :: others) := by
          cases given : message.spans with
          | none =>
              rw [given] at isSent
              cases isSent
          | some spans =>
              rw [given] at isSent
              exact congrArg some isSent
        exact ⟨span.traceId, .carried isInfo blank first carries, rfl⟩
      · cases told
  · rintro ⟨identifier, names, rfl⟩
    cases names with
    | spelled sameInfo given spells =>
        cases isInfo.symm.trans sameInfo
        have named : submission.info.traceId = some identifier.toHex := by
          rw [isKey, Check.traceKey?_eq_some_iff]
          exact ⟨_, given, Identifier.keyOf?_eq_toHex_iff.mpr spells⟩
        rw [named]
    | carried sameInfo blank first carries =>
        cases isInfo.symm.trans sameInfo
        have untold : submission.info.traceId = none := by
          rw [isKey, Check.traceKey?,
            Check.givenTraceId?_eq_none_iff.mpr blank, Option.bind_none]
        rw [first] at head
        simp only [Option.getD_some, List.head?_cons, Option.bind_some, carries,
          Option.map_eq_some_iff] at head
        obtain ⟨span, isFirst, isIdentifier⟩ := head
        obtain ⟨rest, isList⟩ := List.head?_eq_some_iff.mp isFirst
        rw [untold, isList]
        simp only [isIdentifier]

/-- An accepted message that tells no identifier is without one. -/
theorem isUnnamed_of_untold
    (accepted : ofRequest settings message = .ok submission)
    (untold : submission.traceId? = none) : message.IsUnnamed := by
  have head := head_of_accepted accepted
  unfold traceId? at untold
  split at untold
  · cases untold
  rename_i noKey
  split at untold
  · cases untold
  rename_i noSpan
  refine ⟨?_, ?_⟩
  · intro info isInfo
    obtain ⟨_, sameInfo, checked⟩ := info_of_accepted accepted
    cases isInfo.symm.trans sameInfo
    exact Check.givenTraceId?_eq_none checked noKey
  · cases isSent : message.spans.getD [] with
    | nil => rfl
    | cons first rest =>
        have member : first ∈ message.spans.getD [] := by simp [isSent]
        obtain ⟨path, span, checked⟩ :=
          (spans_of_accepted accepted).2 first member
        have image := Check.image_of_checkSpan checked
        rw [noSpan, isSent, List.head?_cons, Option.bind_some, image.traceId]
          at head
        cases head

end Submission

/-- The trace that a request is about is the one that it names, unless it submits
one without any identifier. -/
theorem Request.names_of_subject?
    {settings : Settings} {request : Request} {ids : IdSequence}
    {identifier : Identifier}
    (isSubject : request.subject? settings ids = some identifier.toHex) :
    request.Names identifier ∨
      request.IsUnnamed ∧ ids.allocate.2 = .ok identifier := by
  cases request with
  | submit principal message =>
      cases accepted : Submission.ofRequest settings message with
      | error error =>
          simp only [subject?, accepted] at isSubject
          cases isSubject
      | ok submission =>
          cases told : submission.traceId? with
          | some key =>
              simp only [subject?, accepted, told, Option.some_or,
                Option.some.injEq] at isSubject
              rw [isSubject, Submission.traceId?_eq_some_iff accepted] at told
              obtain ⟨other, names, same⟩ := told
              rw [Identifier.toHex_injective same] at names
              exact Or.inl names
          | none =>
              have unnamed := Submission.isUnnamed_of_untold accepted told
              obtain ⟨given, isNext, same⟩ := unnamed.subject?_eq isSubject
              rw [Identifier.toHex_injective same] at isNext
              exact Or.inr ⟨unnamed, isNext⟩
  | get named => exact Or.inl (Identifier.keyOf?_eq_toHex_iff.mp isSubject)
  | setTag principal named given value =>
      exact Or.inl (Identifier.keyOf?_eq_toHex_iff.mp isSubject)
  | deleteTag principal named given =>
      exact Or.inl (Identifier.keyOf?_eq_toHex_iff.mp isSubject)

/-! ## Requests that find a record -/

/-- The answer to a submission that finds a trace under its identifier. -/
def Submission.reply (settings : Settings) (found : Trace)
    (submission : Submission) : Reply :=
  match submission.foreignSpans found.id with
  | [] => do
      checkUpdatable found.info submission.info
      submission.result settings (some found) found.id
  | violations => .error (.rejected violations)

namespace Request

/-- The answer to a request that finds a trace. -/
def reply (settings : Settings) (found : Trace) : Request → Reply
  | .submit _ message => do
      let submission ← Submission.ofRequest settings message
      submission.reply settings found
  | .get _ => .ok found
  | .setTag _ _ given value => do
      let key ← Service.tagKey given
      return Service.withTag found key value
  | .deleteTag _ _ given => do
      let key ← Service.tagKey given
      return if found.info.tags.contains key then Service.withoutTag found key
        else found

/-- Whether nothing keeps a request from being answered about a record. -/
def IsServed (world : World) (conditions : Conditions) (record : StoredTrace) :
    Request → Prop
  | .submit principal _ =>
      world.Admits conditions record.trace.id record.trace.info.location
        principal
  | .get _ => conditions.reading record.trace.id = none
  | .setTag principal _ _ _ =>
      conditions.PermitTagging record.trace.id record.trace.info.location
        principal
  | .deleteTag principal _ _ =>
      conditions.PermitTagging record.trace.id record.trace.info.location
        principal

end Request

namespace Attempt

variable {Value Next : Type} {conditions : Conditions} {known : List String}
  {store between after : TraceStore}

/-- Whether an attempt that runs alone has this result, whatever it leaves. -/
def Gives (conditions : Conditions) (known : List String) (store : TraceStore)
    (result : Except ServiceError Value) (attempt : Attempt Value) : Prop :=
  EndsIn (conditions.contract known) (fun _ => True) result store attempt

theorem EndsWell.gives
    {attempt : Attempt Value} {value : Value}
    (ends : EndsWell conditions known store after value attempt) :
    Gives conditions known store (.ok value) attempt :=
  Keeps.imp ends (fun _ _ reached => ⟨trivial, congrArg Except.ok reached.2⟩)
    fun _ _ impossible => impossible.elim

theorem gives_settled (result : Except ServiceError Value) :
    Gives conditions known store result (settled result) :=
  endsIn_settled trivial

theorem gives_bind_settled
    {result : Except ServiceError Value} {next : Value → Attempt Next}
    {follow : Value → Except ServiceError Next}
    (second :
      ∀ value, result = .ok value →
        Gives conditions known store (follow value) (next value)) :
    Gives conditions known store (result >>= follow)
      (settled result >>= next) := by
  refine
    @endsIn_bind _ _ _ _ _ (fun reached => reached = store) _ result _ next
      follow (endsIn_settled rfl) ?_ fun _ _ _ _ => trivial
  rintro value _ isValue rfl
  exact second value isValue

theorem gives_bind_error {error : ServiceError} {next : Value → Attempt Next} :
    Gives conditions known store (.error error)
      (settled (.error error) >>= next) :=
  @gives_bind_settled _ _ _ _ _ (.error error) next (fun _ => .error error)
    nofun

theorem gives_bind_endsWell
    {attempt : Attempt Value} {next : Value → Attempt Next} {value : Value}
    {result : Except ServiceError Next}
    (first : EndsWell conditions known store between value attempt)
    (second : Gives conditions known between result (next value)) :
    Gives conditions known store result (attempt >>= next) := by
  unfold Gives EndsIn
  rw [keeps_bind]
  refine Keeps.imp first ?_ fun _ _ impossible => impossible.elim
  rintro _ _ ⟨rfl, rfl⟩
  exact second

theorem Gives.runWithin
    {attempt : Attempt Value} {result : Except ServiceError Value}
    {world : World}
    (gives : Gives conditions world.cache.known world.store result attempt)
    (timeout : Nat) :
    (attempt.run.runWithin conditions.alone timeout world).2 = result := by
  have ended :
      MayEnd _ _ _ (attempt.run.runWithin conditions.alone timeout world).2 :=
    Keeps.runWithin gives timeout
  generalize (attempt.run.runWithin conditions.alone timeout world).2 = given
    at ended ⊢
  cases given with
  | error error => exact ended.2
  | ok value => exact ended.2

/-! ### Requests about a record -/

section Record

variable {record : StoredTrace}
  (stored : store.get? record.trace.id = some record)
  (isNumbered : 1 ≤ record.version)

include stored

theorem gives_get {named : String}
    (readable : conditions.reading record.trace.id = none)
    (isId : Service.traceKey named = .ok record.trace.id) :
    Gives conditions known store (.ok record.trace) (Service.get named) := by
  refine gives_bind_endsWell (endsWell_settled isId) ?_
  refine gives_bind_endsWell (endsWell_load readable stored) ?_
  exact gives_settled _

include isNumbered

section Tags

variable {principal : Option String} {named : String}
  (permit :
    conditions.PermitTagging record.trace.id record.trace.info.location
      principal)
  (isId : Service.traceKey named = .ok record.trace.id)

include permit isId

theorem gives_setTag (settings : Settings) (given value : String) :
    Gives conditions known store
      ((Request.setTag principal named given value).reply settings
        record.trace)
      (Service.setTag principal named given value) := by
  rw [Request.reply]
  cases isKey : Service.tagKey given with
  | error error =>
      unfold Service.setTag
      rw [isKey]
      exact gives_bind_error
  | ok key =>
      exact
        (endsWell_setTag permit stored isId isKey rfl isNumbered value).gives

theorem gives_deleteTag (settings : Settings) (given : String) :
    Gives conditions known store
      ((Request.deleteTag principal named given).reply settings record.trace)
      (Service.deleteTag principal named given) := by
  rw [Request.reply]
  cases isKey : Service.tagKey given with
  | error error =>
      unfold Service.deleteTag
      rw [isKey]
      exact gives_bind_error
  | ok key =>
      by_cases present : record.trace.info.tags.contains key = true
      · have ends :=
          @endsWell_deleteTag_of_present _ _ _ _ _ _ known _ _ permit stored
            isId isKey rfl isNumbered present
        simpa [present] using ends.gives
      · have ends :=
          @endsWell_deleteTag_of_absent _ _ _ _ _ _ known _ _ permit stored
            isId isKey present
        simpa [present] using ends.gives

end Tags

theorem gives_submit
    {world : World} {settings : Settings} {principal : Option String}
    {message : Wire.Trace}
    (admits :
      world.Admits conditions record.trace.id record.trace.info.location
        principal)
    (tells :
      ∀ submission, Submission.ofRequest settings message = .ok submission →
        submission.traceId? = some record.trace.id) :
    Gives conditions world.cache.known store
      ((Request.submit principal message).reply settings record.trace)
      (Service.submit settings principal message) := by
  unfold Request.reply Service.submit
  apply gives_bind_settled
  intro submission accepted
  have settled :
      EndsWell conditions world.cache.known store store record.trace.id
        (Service.settleId submission) := by
    unfold Service.settleId
    rw [tells submission accepted]
    exact endsWell_pure _
  refine gives_bind_endsWell settled ?_
  unfold Submission.reply
  cases isForeign : submission.foreignSpans record.trace.id with
  | cons first rest => exact gives_bind_error
  | nil =>
      refine gives_bind_endsWell (endsWell_pure ()) ?_
      refine gives_bind_endsWell (endsWell_read admits.readable) ?_
      rw [stored]
      apply gives_bind_settled
      intro _ updatable
      have stays := (Submission.updatable_iff.mp updatable).2.1
      have canonical : Check.Canonical record.trace.info.location :=
        stays ▸ Submission.canonical_of_accepted accepted
      obtain ⟨resolved, isResolved⟩ :=
        @World.Admits.endsWell_resolve _ _ _ _ _ store admits canonical
      rw [stays]
      refine gives_bind_endsWell isResolved ?_
      rw [← bind_pure (submission.result settings (some record.trace)
        record.trace.id)]
      apply gives_bind_settled
      intro trace isResult
      have replaced :=
        @endsWell_replace _ world.cache.known _ _ admits.writable _ stored
          isNumbered _ (Submission.id_of_result isResult) .updateTrace
      exact (endsWell_bind replaced (endsWell_pure trace)).gives

end Record

end Attempt

/-- A request that names the trace of a record, and that nothing keeps from being
answered, is answered about the record. -/
theorem Request.gives_of_names
    {world : World} {conditions : Conditions} {record : StoredTrace}
    {request : Request} {identifier : Identifier}
    (stored : world.store.get? record.trace.id = some record)
    (isNumbered : 1 ≤ record.version)
    (isForm : identifier.toHex = record.trace.id)
    (names : request.Names identifier)
    (served : request.IsServed world conditions record)
    (settings : Settings) :
    Attempt.Gives conditions world.cache.known world.store
      (request.reply settings record.trace) (request.attempt settings) := by
  have isId :
      ∀ named, identifier.IsSpelledBy named →
        Service.traceKey named = .ok record.trace.id := by
    intro named spells
    rw [Service.traceKey, Identifier.keyOf?_eq_toHex_iff.mpr spells, isForm]
  cases request with
  | submit principal message =>
      refine Attempt.gives_submit stored isNumbered served ?_
      intro submission accepted
      exact
        (Submission.traceId?_eq_some_iff accepted).mpr
          ⟨identifier, names, isForm⟩
  | get named => exact Attempt.gives_get stored served (isId named names)
  | setTag principal named given value =>
      exact
        Attempt.gives_setTag stored isNumbered served (isId named names)
          settings given value
  | deleteTag principal named given =>
      exact
        Attempt.gives_deleteTag stored isNumbered served (isId named names)
          settings given

/-- The trace that a request names is the one that it is about. -/
theorem Request.subject?_of_names
    {settings : Settings} {request : Request} {ids : IdSequence}
    {identifier : Identifier} {id : String}
    (names : request.Names identifier)
    (isSubject : request.subject? settings ids = some id) :
    id = identifier.toHex := by
  have ofNamed :
      ∀ named, identifier.IsSpelledBy named →
        Identifier.keyOf? named = some id → id = identifier.toHex := by
    intro named spells isKey
    rw [Identifier.keyOf?_eq_toHex_iff.mpr spells] at isKey
    exact (Option.some.inj isKey).symm
  cases request with
  | submit principal message =>
      cases accepted : Submission.ofRequest settings message with
      | error error =>
          simp only [subject?, accepted] at isSubject
          cases isSubject
      | ok submission =>
          have told :=
            (Submission.traceId?_eq_some_iff accepted).mpr
              ⟨identifier, names, rfl⟩
          simp only [subject?, accepted, told, Option.some_or,
            Option.some.injEq] at isSubject
          exact isSubject.symm
  | get named => exact ofNamed named names isSubject
  | setTag principal named given value => exact ofNamed named names isSubject
  | deleteTag principal named given => exact ofNamed named names isSubject

/-! ## Finding and missing a record -/

/-- Whether a request finds a record: it is answered about the trace, its answer
is what is stored afterwards, and nothing else is touched. -/
structure Request.Finds (settings : Settings) (request : Request)
    (record : StoredTrace) (before : World) (outcome : World × Reply) :
    Prop where
  answer : outcome.2 = request.reply settings record.trace
  stored :
    ∀ trace, outcome.2 = .ok trace →
      (outcome.1.store.get? record.trace.id).map StoredTrace.trace = some trace
  others :
    ∀ other, other ≠ record.trace.id →
      outcome.1.store.get? other = before.store.get? other

/-- Whether a request misses the record under an identifier: its answer is the
same whatever is stored there, and it leaves that. -/
structure Request.Misses (id : String) (run : World → World × Reply)
    (world : World) : Prop where
  blind :
    ∀ store : TraceStore,
      (∀ other, other ≠ id → store.get? other = world.store.get? other) →
        (run { world with store }).2 = (run world).2
  left : (run world).1.store.get? id = world.store.get? id

namespace Request

variable {settings : Settings} {request : Request} {identifier : Identifier}
  {conditions : Conditions}

theorem finds_of_names
    {world : World} {record : StoredTrace}
    (stored : world.store.get? record.trace.id = some record)
    (isNumbered : 1 ≤ record.version)
    (isForm : identifier.toHex = record.trace.id)
    (names : request.Names identifier)
    (served : request.IsServed world conditions record) (timeout : Nat) :
    request.Finds settings record world
      ((request.attempt settings).run.runWithin conditions.alone timeout
        world) := by
  have answer :=
    (gives_of_names stored isNumbered isForm names served settings).runWithin
      timeout
  have effect :=
    effect_of_request settings request world conditions timeout
  generalize
    (request.attempt settings).run.runWithin conditions.alone timeout world =
      outcome at answer effect ⊢
  refine ⟨answer, ?_, ?_⟩
  · intro trace succeeded
    simp only [succeeded] at effect
    obtain ⟨id, isSubject, effect⟩ := effect
    rw [subject?_of_names names isSubject, isForm] at effect
    split at effect
    · rw [effect.2.1]
      rfl
    · rw [effect.2]
      exact effect.1
  · intro other different
    cases isResult : outcome.2 with
    | error error =>
        simp only [isResult] at effect
        rw [effect]
    | ok trace =>
        simp only [isResult] at effect
        obtain ⟨id, isSubject, effect⟩ := effect
        rw [subject?_of_names names isSubject, isForm] at effect
        split at effect
        · exact effect.2.2 other different
        · rw [effect.2]

theorem misses_of_not_names
    {world : World} (other : ¬request.Names identifier)
    (notNext :
      request.IsUnnamed → world.ids.allocate.2 ≠ .ok identifier)
    (timeout : Nat) :
    Misses identifier.toHex
      ((request.attempt settings).run.runWithin conditions.alone timeout)
      world := by
  have notSubject :
      ∀ id, request.subject? settings world.ids = some id →
        id ≠ identifier.toHex := by
    rintro _ isSubject rfl
    rcases names_of_subject? isSubject with names | ⟨unnamed, isNext⟩
    · exact other names
    · exact notNext unnamed isNext
  refine ⟨?_, ?_⟩
  · intro store same
    have resembles :
        World.Resembles (request.subject? settings world.ids) world
          { world with store } :=
      ⟨rfl, fun id isSubject => same id (notSubject id isSubject)⟩
    exact (local_of_request settings request resembles conditions timeout).1
  · have effect :=
      effect_of_request settings request world conditions timeout
    generalize
      (request.attempt settings).run.runWithin conditions.alone timeout world =
        outcome at effect ⊢
    cases isResult : outcome.2 with
    | error error =>
        simp only [isResult] at effect
        rw [effect]
    | ok trace =>
        simp only [isResult] at effect
        obtain ⟨id, isSubject, effect⟩ := effect
        split at effect
        · exact effect.2.2 _ (Ne.symm (notSubject id isSubject))
        · rw [effect.2]

end Request

/-! ## Runs -/

/-- Every commit of a life was made by the request of its client. -/
theorem Life.makes_of_mem
    {Client : Type} {settings : Settings} {requests : Client → Request}
    {id : String} {commits : List (Commit Client)}
    (life : Life settings requests id commits) :
    ∀ commit ∈ commits, ∃ previous,
      (requests commit.client).Makes settings previous commit.record.trace := by
  induction life with
  | unborn => exact List.forall_mem_nil _
  | made _ makes _ _ inductionHypothesis =>
      rw [List.forall_mem_append, List.forall_mem_singleton]
      exact ⟨inductionHypothesis, _, makes⟩

/-- What a submission makes is stored under the identifier that its message
names. -/
theorem Request.Makes.id_of_names
    {settings : Settings} {principal : Option String} {message : Wire.Trace}
    {previous : Option StoredTrace} {trace : Trace} {identifier : Identifier}
    (makes : (Request.submit principal message).Makes settings previous trace)
    (names : message.Names identifier) : trace.id = identifier.toHex := by
  have ofFits :
      ∀ {submission : Submission} {traceId : String},
        submission.Fits settings message traceId →
          traceId = identifier.toHex := by
    intro submission traceId fits
    have told :=
      (Submission.traceId?_eq_some_iff fits.accepted).mpr
        ⟨identifier, names, rfl⟩
    rcases fits.named with isTold | ⟨untold, _⟩
    · exact Option.some.inj (isTold.symm.trans told)
    · cases untold.symm.trans told
  cases makes with
  | created fits isResult =>
      exact (Submission.id_of_result isResult).trans (ofFits fits)
  | updated fits _ isResult =>
      exact (Submission.id_of_result isResult).trans (ofFits fits)

namespace Traffic

variable {Client : Type} [DecidableEq Client] {settings : Settings}
  {requests : Client → Request}

/-- A submission that has succeeded has written what it is answered with. -/
theorem wrote_of_submitted
    {world : World} (turns : List (Turn Client)) {client : Client}
    {principal : Option String} {message : Wire.Trace} {trace : Trace}
    (submits : requests client = .submit principal message)
    (isOver :
      ((start settings requests world).run turns).pending client =
        .done (.ok trace)) :
    ∃ record, record.trace = trace ∧
      (((start settings requests world).run turns).knowledge client).stage =
        .wrote record := by
  have keeps :
      Program.Keeps ((requests client).contract settings)
        (Attempt.MayEnd (requests client).MayAnswer Request.MayFail)
        (((start settings requests world).run turns).knowledge client)
        (((start settings requests world).run turns).pending client) :=
    keeps_run turns client
  rw [isOver, Program.keeps_done] at keeps
  have answers :
      (requests client).MayAnswer
        (((start settings requests world).run turns).knowledge client)
        trace := keeps
  unfold Request.MayAnswer at answers
  cases stage :
      (((start settings requests world).run turns).knowledge client).stage with
  | underway =>
      rw [stage, submits] at answers
      cases answers
  | refused =>
      rw [stage] at answers
      exact answers.elim
  | wrote record =>
      rw [stage] at answers
      exact ⟨record, answers.symm, rfl⟩

/-- A submission that has succeeded has left a record under the identifier that
its message names. -/
theorem stored_of_submitted
    (ids : IdSequence) (turns : List (Turn Client)) {client : Client}
    {principal : Option String} {message : Wire.Trace}
    {identifier : Identifier} {trace : Trace}
    (submits : requests client = .submit principal message)
    (names : message.Names identifier)
    (isOver :
      ((start settings requests (World.initial ids)).run turns).pending
        client = .done (.ok trace)) :
    trace.id = identifier.toHex ∧
      (((start settings requests (World.initial ids)).run
        turns).world.store.get? trace.id).isSome := by
  obtain ⟨record, rfl, wrote⟩ := wrote_of_submitted turns submits isOver
  obtain ⟨event, member, isClient, written⟩ :=
    (accounts_run turns client).written record wrote
  obtain ⟨life, current⟩ :=
    life_of_run settings requests ids turns record.trace.id
  have isCommit : commit? record.trace.id event = some ⟨client, record⟩ := by
    rw [commit?, written, ← isClient]
    exact if_pos rfl
  have committed := List.mem_filterMap.mpr ⟨event, member, isCommit⟩
  obtain ⟨previous, makes⟩ := life.makes_of_mem _ committed
  simp only [submits] at makes
  refine ⟨makes.id_of_names names, ?_⟩
  have inRecords := @List.mem_map_of_mem _ _ _ _ Commit.record committed
  rw [current]
  exact List.getLast?_isSome.mpr (List.ne_nil_of_mem inRecords)

/-- Keys are normal forms. At every moment of a run from the empty store, a
submission that has succeeded has left a record under the identifier that its
message names; and a request finds a record if it names the identifier of its
trace, in any spelling, and misses it otherwise, unless it submits a trace without
any identifier and the source gives it this one. -/
theorem named_of_run
    (settings : Settings) (requests : Client → Request) (ids : IdSequence)
    (turns : List (Turn Client)) :
    let reached := (start settings requests (World.initial ids)).run turns
    Identifier.KeysAreNormal ∧
      (∀ (client : Client) (principal : Option String) (message : Wire.Trace)
          (identifier : Identifier) (trace : Trace),
        requests client = .submit principal message →
          message.Names identifier →
            reached.pending client = .done (.ok trace) →
              trace.id = identifier.toHex ∧
                (reached.world.store.get? trace.id).isSome) ∧
        ∀ (identifier : Identifier) (record : StoredTrace),
          reached.world.store.get? identifier.toHex = some record →
            ∀ (request : Request) (conditions : Conditions) (timeout : Nat),
              let run :=
                (request.attempt settings).run.runWithin conditions.alone
                  timeout
              (request.Names identifier →
                request.IsServed reached.world conditions record →
                  request.Finds settings record reached.world
                    (run reached.world)) ∧
                (¬request.Names identifier →
                  (request.IsUnnamed →
                    reached.world.ids.allocate.2 ≠ .ok identifier) →
                    Request.Misses identifier.toHex run reached.world) := by
  intro reached
  refine ⟨Identifier.keysAreNormal, ?_, ?_⟩
  · intro client principal message identifier trace submits names isOver
    exact stored_of_submitted ids turns submits names isOver
  · intro identifier record stored request conditions timeout run
    obtain ⟨life, current⟩ :
        Life settings requests identifier.toHex
            (reached.commits identifier.toHex) ∧
          reached.world.store.get? identifier.toHex =
            (recordsOf (reached.commits identifier.toHex)).getLast? :=
      life_of_run settings requests ids turns identifier.toHex
    have member := List.mem_of_getLast? (current.symm.trans stored)
    have isForm : record.trace.id = identifier.toHex :=
      life.named record member
    refine ⟨?_, ?_⟩
    · intro names served
      refine
        Request.finds_of_names ?_ (life.version_pos member) isForm.symm names
          served timeout
      rw [isForm]
      exact stored
    · intro other notNext
      exact Request.misses_of_not_names other notNext timeout

/-- A trace that is submitted under an identifier in upper case with a blank in
front is read under other spellings, and not under another identifier. -/
theorem named_paddedMessage :
    let message := taggedMessage (some " 0A") "first"
    let reached :=
      (start {} (fun _ : Unit => .submit none message)
          (World.initial (.start 0))).run
        (List.replicate 6 { client := () })
    let read (named : String) :=
      (Service.get named).run.runWithin (Conditions.alone {}) 0
    ∃ record, reached.world.store.get? "0a" = some record ∧
      (read "0A" reached.world).2 = .ok record.trace ∧
        (read "0a\n" reached.world).2 = .ok record.trace ∧
          Request.Misses "0a" (read "0b") reached.world := by
  intro message reached read
  have isStored : (reached.world.store.get? "0a").isSome := by
    decide +kernel
  obtain ⟨record, stored⟩ := Option.isSome_iff_exists.mp isStored
  have spells :
      ∀ named : String, Text.lowered (Text.trimmed named) = "0a" →
        Identifier.IsSpelledBy ⟨[10]⟩ named := by
    intro named isForm
    refine Identifier.isSpelledBy_iff.mpr ⟨rfl, ?_⟩
    rw [Identifier.ofHex_eq_ok_iff, isForm]
    rfl
  have different : ¬Identifier.IsSpelledBy ⟨[10]⟩ "0b" := by
    rw [← Identifier.keyOf?_eq_toHex_iff]
    decide +kernel
  have ofRecord :=
    (named_of_run {} (fun _ : Unit => .submit none message) (.start 0)
      (List.replicate 6 { client := () })).2.2 ⟨[10]⟩ record stored
  refine ⟨record, stored, ?_, ?_, ?_⟩
  · exact
      ((ofRecord (.get "0A") {} 0).1 (spells _ (by decide +kernel)) rfl).answer
  · exact
      ((ofRecord (.get "0a\n") {} 0).1 (spells _ (by decide +kernel))
        rfl).answer
  · exact (ofRecord (.get "0b") {} 0).2 different nofun

end Traffic

end TraceArchive
