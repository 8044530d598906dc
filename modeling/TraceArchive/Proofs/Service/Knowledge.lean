import TraceArchive.Proofs.Service.Traffic

/-!
# What requests know

What a request has learnt from the answers to its calls, and what each of its
writes is based on: the checked submission, the record that it read under the
same identifier, and the permission for the location. All four kinds of requests
keep one contract. They write once at most, and then they are over.
-/

namespace TraceArchive

/-! ## Exchanges that matter later -/

namespace Exchange

/-- The record that a write put into the store. -/
def written? : Exchange → Option StoredTrace
  | ⟨.createTrace _, .answered record⟩ => some record
  | ⟨.replaceTrace _ _ _, .answered record⟩ => some record
  | _ => none

/-- What a read found in the store, under which identifier. -/
def read? : Exchange → Option (String × Option StoredTrace)
  | ⟨.readTrace id, .answered found⟩ => some (id, found)
  | _ => none

/-- The identifier that was allocated. -/
def allocated? : Exchange → Option Identifier
  | ⟨.allocateId, .answered identifier⟩ => some identifier
  | _ => none

/-- The experiment that the catalog found. -/
def found? : Exchange → Option String
  | ⟨.lookUpExperiment identifier, .answered true⟩ => some identifier
  | _ => none

theorem written?_of_read?
    {exchange : Exchange} {reading : String × Option StoredTrace}
    (isRead : exchange.read? = some reading) : exchange.written? = none := by
  obtain ⟨call, answer⟩ := exchange
  cases call with
  | readTrace id => rfl
  | _ => cases isRead

end Exchange

/-! ## Knowledge -/

/-- How far a request is. -/
inductive Stage where
  | underway
  /-- A collaborator failed or said no. -/
  | refused
  | wrote (record : StoredTrace)

/-- What a request has learnt from the answers to its calls. -/
structure Knowledge where
  allocated : Option Identifier := none
  /-- The identifier that was read, and the record under it. -/
  reading : Option (String × Option StoredTrace) := none
  /-- The experiments that the cache knows. -/
  recalled : List String := []
  /-- The experiments that the catalog found. -/
  found : List String := []
  permitted : List (TraceLocation × Option String) := []
  stage : Stage := .underway

namespace Knowledge

/-- What is known after one more answer. -/
def learn (known : Knowledge) : (call : Call) → call.Answer → Knowledge
  | .allocateId, .answered identifier =>
      { known with allocated := some identifier }
  | .readTrace id, .answered record =>
      { known with reading := some (id, record) }
  | .recallExperiment identifier, true =>
      { known with recalled := identifier :: known.recalled }
  | .recallExperiment _, false => known
  | .lookUpExperiment identifier, .answered true =>
      { known with found := identifier :: known.found }
  | .rememberExperiment _, _ => known
  | .authorize location principal, .answered true =>
      { known with permitted := (location, principal) :: known.permitted }
  | .createTrace _, .answered record => { known with stage := .wrote record }
  | .replaceTrace _ _ _, .answered record =>
      { known with stage := .wrote record }
  | _, _ => { known with stage := .refused }

section Learn

variable (known : Knowledge) (exchange : Exchange)

/-- What each exchange adds to what is known. -/
theorem learn_parts :
    let later := known.learn exchange.call exchange.answer
    later.reading = exchange.read?.or known.reading ∧
      later.allocated = exchange.allocated?.or known.allocated ∧
        later.found = exchange.found?.toList ++ known.found ∧
          (later.stage = known.stage ∧ exchange.written? = none ∨
            later.stage = .refused ∧ exchange.written? = none ∨
              ∃ record, later.stage = .wrote record ∧
                exchange.written? = some record) := by
  obtain ⟨call, answer⟩ := exchange
  cases call with
  | allocateId =>
      rcases answer with identifier | fault | _
      · exact ⟨rfl, rfl, rfl, Or.inl ⟨rfl, rfl⟩⟩
      · exact ⟨rfl, rfl, rfl, Or.inr (Or.inl ⟨rfl, rfl⟩)⟩
      · exact ⟨rfl, rfl, rfl, Or.inr (Or.inl ⟨rfl, rfl⟩)⟩
  | readTrace id =>
      rcases answer with read | fault | _
      · exact ⟨rfl, rfl, rfl, Or.inl ⟨rfl, rfl⟩⟩
      · exact ⟨rfl, rfl, rfl, Or.inr (Or.inl ⟨rfl, rfl⟩)⟩
      · exact ⟨rfl, rfl, rfl, Or.inr (Or.inl ⟨rfl, rfl⟩)⟩
  | recallExperiment identifier =>
      cases answer with
      | false => exact ⟨rfl, rfl, rfl, Or.inl ⟨rfl, rfl⟩⟩
      | true => exact ⟨rfl, rfl, rfl, Or.inl ⟨rfl, rfl⟩⟩
  | lookUpExperiment identifier =>
      rcases answer with (_ | _) | fault | _
      · exact ⟨rfl, rfl, rfl, Or.inr (Or.inl ⟨rfl, rfl⟩)⟩
      · exact ⟨rfl, rfl, rfl, Or.inl ⟨rfl, rfl⟩⟩
      · exact ⟨rfl, rfl, rfl, Or.inr (Or.inl ⟨rfl, rfl⟩)⟩
      · exact ⟨rfl, rfl, rfl, Or.inr (Or.inl ⟨rfl, rfl⟩)⟩
  | rememberExperiment identifier => exact ⟨rfl, rfl, rfl, Or.inl ⟨rfl, rfl⟩⟩
  | authorize location principal =>
      rcases answer with (_ | _) | fault | _
      · exact ⟨rfl, rfl, rfl, Or.inr (Or.inl ⟨rfl, rfl⟩)⟩
      · exact ⟨rfl, rfl, rfl, Or.inl ⟨rfl, rfl⟩⟩
      · exact ⟨rfl, rfl, rfl, Or.inr (Or.inl ⟨rfl, rfl⟩)⟩
      · exact ⟨rfl, rfl, rfl, Or.inr (Or.inl ⟨rfl, rfl⟩)⟩
  | createTrace trace =>
      rcases answer with record | fault | _
      · exact ⟨rfl, rfl, rfl, Or.inr (Or.inr ⟨record, rfl, rfl⟩)⟩
      · exact ⟨rfl, rfl, rfl, Or.inr (Or.inl ⟨rfl, rfl⟩)⟩
      · exact ⟨rfl, rfl, rfl, Or.inr (Or.inl ⟨rfl, rfl⟩)⟩
  | replaceTrace id expected trace =>
      rcases answer with record | fault | _
      · exact ⟨rfl, rfl, rfl, Or.inr (Or.inr ⟨record, rfl, rfl⟩)⟩
      · exact ⟨rfl, rfl, rfl, Or.inr (Or.inl ⟨rfl, rfl⟩)⟩
      · exact ⟨rfl, rfl, rfl, Or.inr (Or.inl ⟨rfl, rfl⟩)⟩

theorem learn_reading :
    (known.learn exchange.call exchange.answer).reading =
      exchange.read?.or known.reading :=
  (known.learn_parts exchange).1

theorem learn_allocated :
    (known.learn exchange.call exchange.answer).allocated =
      exchange.allocated?.or known.allocated :=
  (known.learn_parts exchange).2.1

theorem learn_found :
    (known.learn exchange.call exchange.answer).found =
      exchange.found?.toList ++ known.found :=
  (known.learn_parts exchange).2.2.1

theorem stage_of_written
    {record : StoredTrace} (written : exchange.written? = some record) :
    (known.learn exchange.call exchange.answer).stage = .wrote record := by
  rcases (known.learn_parts exchange).2.2.2 with
    ⟨_, nothing⟩ | ⟨_, nothing⟩ | ⟨other, wrote, isOther⟩
  · rw [written] at nothing
    cases nothing
  · rw [written] at nothing
    cases nothing
  · rw [written] at isOther
    cases isOther
    exact wrote

theorem written_of_stage
    {record : StoredTrace}
    (wrote :
      (known.learn exchange.call exchange.answer).stage = .wrote record) :
    known.stage = .wrote record ∨ exchange.written? = some record := by
  rcases (known.learn_parts exchange).2.2.2 with
    ⟨kept, _⟩ | ⟨refused, _⟩ | ⟨other, wroteOther, isOther⟩
  · exact Or.inl (kept.symm.trans wrote)
  · rw [refused] at wrote
    cases wrote
  · rw [wroteOther] at wrote
    cases wrote
    exact Or.inr isOther

end Learn

/-- Whether a location is known to exist. -/
def Exists (known : Knowledge) : TraceLocation → Prop
  | .experiment identifier =>
      identifier ∈ known.recalled ∨ identifier ∈ known.found
  | .inferenceTable fullName => (TraceLocation.tableName? fullName).isSome

/-- Whether an identifier is that of a submission: the one that the request
tells, else the one that was allocated. -/
def Names (known : Knowledge) (submission : Submission)
    (traceId : String) : Prop :=
  submission.traceId? = some traceId ∨
    submission.traceId? = none ∧
      ∃ (sequence : IdSequence) (identifier : Identifier),
        sequence.allocate.2 = .ok identifier ∧
          known.allocated = some identifier ∧ traceId = identifier.toHex

/-- Whether a submission may be written under an identifier, but for what is
stored there. -/
structure Grounds (settings : Settings) (principal : Option String)
    (message : Wire.Trace) (known : Knowledge) (submission : Submission)
    (traceId : String) : Prop where
  accepted : Submission.ofRequest settings message = .ok submission
  named : known.Names submission traceId
  own : submission.foreignSpans traceId = []
  located : known.Exists submission.info.location
  permitted : (submission.info.location, principal) ∈ known.permitted

/-- What is still known after calls about locations. -/
structure Extends (known later : Knowledge) : Prop where
  allocated : later.allocated = known.allocated
  reading : later.reading = known.reading
  recalled : known.recalled ⊆ later.recalled
  found : known.found ⊆ later.found
  permitted : known.permitted ⊆ later.permitted
  underway : later.stage = .underway

end Knowledge

namespace Request

/-- Whether a request has reason to make a write, given what it knows. -/
inductive Warrants (settings : Settings) :
    Request → Knowledge → Call → Prop
  | created {principal : Option String} {message : Wire.Trace}
      {known : Knowledge} {submission : Submission} {traceId : String}
      {trace : Trace} :
      known.Grounds settings principal message submission traceId →
      known.reading = some (traceId, none) →
      submission.result settings none traceId = .ok trace →
      Warrants settings (.submit principal message) known (.createTrace trace)
  | updated {principal : Option String} {message : Wire.Trace}
      {known : Knowledge} {submission : Submission} {traceId : String}
      {stored : StoredTrace} {trace : Trace} :
      known.Grounds settings principal message submission traceId →
      known.reading = some (traceId, some stored) →
      Submission.checkUpdatable stored.trace.info submission.info = .ok () →
      submission.result settings (some stored.trace) traceId = .ok trace →
      Warrants settings (.submit principal message) known
        (.replaceTrace traceId stored.version trace)
  | tagged {principal : Option String} {named given value key traceId : String}
      {known : Knowledge} {stored : StoredTrace} :
      Service.tagKey given = .ok key →
      Service.traceKey named = .ok traceId →
      known.reading = some (traceId, some stored) →
      (stored.trace.info.location, principal) ∈ known.permitted →
      Warrants settings (.setTag principal named given value) known
        (.replaceTrace traceId stored.version
          (Service.withTag stored.trace key value))
  | untagged {principal : Option String} {named given key traceId : String}
      {known : Knowledge} {stored : StoredTrace} :
      Service.tagKey given = .ok key →
      Service.traceKey named = .ok traceId →
      known.reading = some (traceId, some stored) →
      (stored.trace.info.location, principal) ∈ known.permitted →
      stored.trace.info.tags.contains key = true →
      Warrants settings (.deleteTag principal named given) known
        (.replaceTrace traceId stored.version
          (Service.withoutTag stored.trace key))

/-- Whether a request has its answer from a record that it read. -/
inductive OnlyReads : Request → Knowledge → Trace → Prop
  | got {named traceId : String} {known : Knowledge} {stored : StoredTrace} :
      Service.traceKey named = .ok traceId →
      known.reading = some (traceId, some stored) →
      OnlyReads (.get named) known stored.trace
  | untagged {principal : Option String} {named given key traceId : String}
      {known : Knowledge} {stored : StoredTrace} :
      Service.tagKey given = .ok key →
      Service.traceKey named = .ok traceId →
      known.reading = some (traceId, some stored) →
      (stored.trace.info.location, principal) ∈ known.permitted →
      stored.trace.info.tags.contains key = false →
      OnlyReads (.deleteTag principal named given) known stored.trace

/-- What a request has to see to. It goes on only while nothing failed and
nothing was written, takes one identifier and reads once at most, remembers only
what the catalog found, and writes only what is warranted. -/
def contract (settings : Settings) (request : Request) :
    Contract Knowledge where
  admits _ call answer :=
    match call, answer with
    | .allocateId, .answered identifier =>
        ∃ sequence : IdSequence, sequence.allocate.2 = .ok identifier
    | _, _ => True
  demands known call :=
    known.stage = .underway ∧
      match call with
      | .allocateId => known.allocated = none ∧ known.reading = none
      | .readTrace _ => known.reading = none
      | .rememberExperiment identifier => identifier ∈ known.found
      | .createTrace _ | .replaceTrace _ _ _ =>
          request.Warrants settings known call
      | _ => True
  next := Knowledge.learn

/-- Whether a request may fail, given what it knows. -/
def MayFail (known : Knowledge) (_ : ServiceError) : Prop :=
  ∀ record, known.stage ≠ .wrote record

/-- Whether a request may end with a trace, given what it knows. -/
def MayAnswer (request : Request) (known : Knowledge) (trace : Trace) : Prop :=
  match known.stage with
  | .underway => request.OnlyReads known trace
  | .refused => False
  | .wrote record => trace = record.trace

section Once

variable {settings : Settings} {request : Request} {known : Knowledge}
  {exchange : Exchange}

theorem reading_of_demands
    (demanded : (request.contract settings).demands known exchange.call)
    {reading : String × Option StoredTrace}
    (isRead : exchange.read? = some reading) : known.reading = none := by
  obtain ⟨call, answer⟩ := exchange
  cases call with
  | readTrace id => exact demanded.2
  | _ => cases isRead

theorem allocated_of_demands
    (demanded : (request.contract settings).demands known exchange.call)
    {identifier : Identifier}
    (isAllocated : exchange.allocated? = some identifier) :
    known.allocated = none := by
  obtain ⟨call, answer⟩ := exchange
  cases call with
  | allocateId => exact demanded.2.1
  | _ => cases isAllocated

theorem warrants_of_demands
    (demanded : (request.contract settings).demands known exchange.call)
    {record : StoredTrace} (written : exchange.written? = some record) :
    request.Warrants settings known exchange.call := by
  obtain ⟨call, answer⟩ := exchange
  cases call with
  | createTrace trace => exact demanded.2
  | replaceTrace id expected trace => exact demanded.2
  | _ => cases written

theorem reading_kept
    (demanded : (request.contract settings).demands known exchange.call)
    {reading : String × Option StoredTrace}
    (before : known.reading = some reading) :
    (known.learn exchange.call exchange.answer).reading = some reading := by
  rw [Knowledge.learn_reading]
  cases isRead : exchange.read? with
  | none => exact before
  | some other =>
      rw [reading_of_demands demanded isRead] at before
      cases before

theorem allocated_kept
    (demanded : (request.contract settings).demands known exchange.call)
    {identifier : Identifier}
    (before : known.allocated = some identifier) :
    (known.learn exchange.call exchange.answer).allocated =
      some identifier := by
  rw [Knowledge.learn_allocated]
  cases isAllocated : exchange.allocated? with
  | none => exact before
  | some other =>
      rw [allocated_of_demands demanded isAllocated] at before
      cases before

end Once

/-! ## Parts of requests -/

section Parts

variable {settings : Settings} {request : Request} {known : Knowledge}

theorem mayFail_of_underway
    (underway : known.stage = .underway) (error : ServiceError) :
    MayFail known error := by
  intro record wrote
  rw [underway] at wrote
  cases wrote

theorem keeps_read
    {id : String} {ok : Knowledge → Option StoredTrace → Prop}
    (underway : known.stage = .underway) (first : known.reading = none)
    (afterwards :
      ∀ found, ok { known with reading := some (id, found) } found) :
    Attempt.Keeps (request.contract settings) ok MayFail known
      (Service.read id) := by
  unfold Service.read
  rw [Attempt.keeps_calling]
  refine ⟨⟨underway, first⟩, ?_⟩
  rintro (found | fault | _) _
  · exact afterwards found
  · intro record wrote
    cases wrote
  · intro record wrote
    cases wrote

theorem keeps_load
    {id : String} {ok : Knowledge → StoredTrace → Prop}
    (underway : known.stage = .underway) (first : known.reading = none)
    (afterwards :
      ∀ stored, ok { known with reading := some (id, some stored) } stored) :
    Attempt.Keeps (request.contract settings) ok MayFail known
      (Service.load id) := by
  unfold Service.load
  rw [Attempt.keeps_bind]
  apply keeps_read underway first
  intro found
  cases found with
  | none =>
      rw [Attempt.keeps_settled]
      exact ⟨by simp, fun error _ => mayFail_of_underway underway error⟩
  | some stored =>
      rw [Attempt.keeps_pure]
      exact afterwards stored

theorem keeps_authorize
    {location : TraceLocation} {principal : Option String}
    {ok : Knowledge → Unit → Prop}
    (underway : known.stage = .underway)
    (afterwards :
      ok { known with permitted := (location, principal) :: known.permitted }
        ()) :
    Attempt.Keeps (request.contract settings) ok MayFail known
      (Access.authorize location principal) := by
  unfold Access.authorize
  rw [Attempt.keeps_bind, Attempt.keeps_calling]
  refine ⟨⟨underway, trivial⟩, ?_⟩
  rintro ((_ | _) | fault | _) _
  · change Attempt.Keeps (request.contract settings) ok MayFail _
      (Attempt.settled _)
    rw [Attempt.keeps_settled]
    refine ⟨by simp, ?_⟩
    intro error _ record wrote
    cases wrote
  · change Attempt.Keeps (request.contract settings) ok MayFail _ (pure ())
    rw [Attempt.keeps_pure]
    exact afterwards
  · intro record wrote
    cases wrote
  · intro record wrote
    cases wrote

theorem keeps_requireExperiment
    {identifier : String} {ok : Knowledge → Unit → Prop}
    (underway : known.stage = .underway)
    (afterwards :
      ∀ later, known.Extends later → later.Exists (.experiment identifier) →
        ok later ()) :
    Attempt.Keeps (request.contract settings) ok MayFail known
      (Access.requireExperiment identifier) := by
  unfold Access.requireExperiment
  rw [Attempt.keeps_bind, Attempt.keeps_calling]
  refine ⟨⟨underway, trivial⟩, ?_⟩
  rintro (_ | _) _
  · change Attempt.Keeps (request.contract settings) ok MayFail known
      (Access.lookUp identifier >>= _)
    unfold Access.lookUp
    rw [Attempt.keeps_bind, Attempt.keeps_calling]
    refine ⟨⟨underway, trivial⟩, ?_⟩
    rintro ((_ | _) | fault | _) _
    · change Attempt.Keeps (request.contract settings) ok MayFail _
        (Attempt.require [.invalidLocation (.unknownExperiment identifier)])
      rw [Attempt.keeps_require]
      refine ⟨by simp, ?_⟩
      intro _ record wrote
      cases wrote
    · change Attempt.Keeps (request.contract settings) ok MayFail _
        (Attempt.calling (.rememberExperiment identifier) .ok)
      rw [Attempt.keeps_calling]
      refine ⟨⟨underway, List.mem_cons_self⟩, ?_⟩
      intro _ _
      refine afterwards _
        ⟨rfl, rfl, List.Subset.refl _, List.subset_cons_self _ _,
          List.Subset.refl _, underway⟩ ?_
      exact Or.inr List.mem_cons_self
    · intro record wrote
      cases wrote
    · intro record wrote
      cases wrote
  · change Attempt.Keeps (request.contract settings) ok MayFail _ (pure ())
    rw [Attempt.keeps_pure]
    refine afterwards _
      ⟨rfl, rfl, List.subset_cons_self _ _, List.Subset.refl _,
        List.Subset.refl _, underway⟩ ?_
    exact Or.inl List.mem_cons_self

theorem keeps_resolve
    {location : TraceLocation} {principal : Option String}
    {ok : Knowledge → ResolvedLocation → Prop}
    (underway : known.stage = .underway)
    (afterwards :
      ∀ later resolved, known.Extends later → later.Exists location →
        (location, principal) ∈ later.permitted → ok later resolved) :
    Attempt.Keeps (request.contract settings) ok MayFail known
      (Access.resolve location principal) := by
  have authorized :
      ∀ (later : Knowledge) (target : LocationTarget),
        known.Extends later → later.Exists location →
          Attempt.Keeps (request.contract settings) ok MayFail later
            (do
              Access.authorize location principal
              return ⟨location, target⟩) := by
    intro later target extends' here
    rw [Attempt.keeps_bind]
    apply keeps_authorize extends'.underway
    rw [Attempt.keeps_pure]
    refine afterwards _ _ ?_ here List.mem_cons_self
    exact
      ⟨extends'.allocated, extends'.reading, extends'.recalled,
        extends'.found,
        fun member permitted =>
          List.mem_cons_of_mem _ (extends'.permitted permitted),
        extends'.underway⟩
  have extendsSelf : known.Extends known :=
    ⟨rfl, rfl, List.Subset.refl _, List.Subset.refl _, List.Subset.refl _,
      underway⟩
  unfold Access.resolve
  rw [Attempt.keeps_bind]
  cases location with
  | experiment identifier =>
      unfold Access.target
      rw [Attempt.keeps_bind]
      apply keeps_requireExperiment underway
      intro later extends' here
      rw [Attempt.keeps_pure]
      exact authorized later _ extends' here
  | inferenceTable fullName =>
      cases named : TraceLocation.tableName? fullName with
      | none =>
          simp only [Access.target, named]
          rw [Attempt.keeps_settled]
          exact ⟨by simp, fun error _ => mayFail_of_underway underway error⟩
      | some name =>
          simp only [Access.target, named]
          rw [Attempt.keeps_pure]
          exact authorized known _ extendsSelf (by
            simp [Knowledge.Exists, named])

theorem keeps_settleId
    {submission : Submission} {ok : Knowledge → String → Prop}
    (fresh : known.allocated = none) (first : known.reading = none)
    (underway : known.stage = .underway)
    (afterwards :
      ∀ later traceId, later.Names submission traceId →
        later.reading = none → later.stage = .underway →
          ok later traceId) :
    Attempt.Keeps (request.contract settings) ok MayFail known
      (Service.settleId submission) := by
  unfold Service.settleId
  cases told : submission.traceId? with
  | some traceId =>
      rw [Attempt.keeps_pure]
      exact afterwards known traceId (Or.inl told) first underway
  | none =>
      rw [Attempt.keeps_bind, Attempt.keeps_calling]
      refine ⟨⟨underway, fresh, first⟩, ?_⟩
      rintro (identifier | fault | _) admitted
      · change Attempt.Keeps (request.contract settings) ok MayFail _ (pure _)
        rw [Attempt.keeps_pure]
        obtain ⟨sequence, given⟩ := admitted
        exact afterwards _ _
          (Or.inr ⟨told, sequence, identifier, given, rfl, rfl⟩) first
          underway
      · intro record wrote
        cases wrote
      · intro record wrote
        cases wrote

theorem keeps_create
    {trace : Trace} {ok : Knowledge → StoredTrace → Prop}
    (underway : known.stage = .underway)
    (warranted : request.Warrants settings known (.createTrace trace))
    (afterwards :
      ∀ record, ok { known with stage := .wrote record } record) :
    Attempt.Keeps (request.contract settings) ok MayFail known
      (Service.create trace) := by
  unfold Service.create
  rw [Attempt.keeps_calling]
  refine ⟨⟨underway, warranted⟩, ?_⟩
  rintro (record | fault | _) _
  · exact afterwards record
  · intro record wrote
    cases wrote
  · intro record wrote
    cases wrote

theorem keeps_replace
    {operation : Operation} {traceId : String} {stored : StoredTrace}
    {trace : Trace} {ok : Knowledge → StoredTrace → Prop}
    (underway : known.stage = .underway)
    (warranted :
      request.Warrants settings known
        (.replaceTrace traceId stored.version trace))
    (afterwards :
      ∀ record, ok { known with stage := .wrote record } record) :
    Attempt.Keeps (request.contract settings) ok MayFail known
      (Service.replace operation traceId stored trace) := by
  unfold Service.replace
  rw [Attempt.keeps_calling]
  refine ⟨⟨underway, warranted⟩, ?_⟩
  rintro (record | fault | _) _
  · exact afterwards record
  · intro record wrote
    cases wrote
  · intro record wrote
    cases wrote

end Parts

/-! ## Whole requests -/

section Whole

variable {settings : Settings}

theorem keeps_submit (principal : Option String) (message : Wire.Trace) :
    Attempt.Keeps (contract settings (.submit principal message))
      (MayAnswer (.submit principal message)) MayFail {}
      (Service.submit settings principal message) := by
  unfold Service.submit
  rw [Attempt.keeps_bind, Attempt.keeps_settled]
  refine ⟨?_, fun error _ => mayFail_of_underway rfl error⟩
  intro submission accepted
  rw [Attempt.keeps_bind]
  apply keeps_settleId rfl rfl rfl
  intro known traceId named first underway
  rw [Attempt.keeps_bind, Attempt.keeps_require]
  refine ⟨?_, fun _ => mayFail_of_underway underway _⟩
  intro own
  rw [Attempt.keeps_bind]
  apply keeps_read underway first
  intro found
  have grounds :
      ∀ later : Knowledge,
        Knowledge.Extends { known with reading := some (traceId, found) }
          later →
        later.Exists submission.info.location →
        (submission.info.location, principal) ∈ later.permitted →
        later.Grounds settings principal message submission traceId := by
    intro later extends' located permitted
    refine ⟨accepted, ?_, own, located, permitted⟩
    unfold Knowledge.Names
    rw [extends'.allocated]
    exact named
  have underway' :
      Knowledge.stage { known with reading := some (traceId, found) } =
        .underway :=
    underway
  cases found with
  | none =>
      dsimp only
      rw [Attempt.keeps_bind]
      refine keeps_resolve underway' ?_
      intro later resolved extends' located permitted
      rw [Attempt.keeps_bind, Attempt.keeps_settled]
      refine ⟨?_, fun error _ =>
        mayFail_of_underway extends'.underway error⟩
      intro trace isResult
      rw [Attempt.keeps_bind]
      apply keeps_create extends'.underway
      · exact Warrants.created (grounds later extends' located permitted)
          extends'.reading isResult
      · intro record
        rw [Attempt.keeps_pure]
        rfl
  | some stored =>
      dsimp only
      rw [Attempt.keeps_bind, Attempt.keeps_settled]
      refine ⟨?_, fun error _ => mayFail_of_underway underway error⟩
      intro _ updatable
      rw [Attempt.keeps_bind]
      refine keeps_resolve underway' ?_
      intro later resolved extends' located permitted
      rw [Attempt.keeps_bind, Attempt.keeps_settled]
      refine ⟨?_, fun error _ =>
        mayFail_of_underway extends'.underway error⟩
      intro trace isResult
      rw [Attempt.keeps_bind]
      apply keeps_replace extends'.underway
      · exact Warrants.updated (grounds later extends' located permitted)
          extends'.reading updatable isResult
      · intro record
        rw [Attempt.keeps_pure]
        rfl

theorem keeps_get (named : String) :
    Attempt.Keeps (contract settings (.get named)) (MayAnswer (.get named))
      MayFail {} (Service.get named) := by
  unfold Service.get
  rw [Attempt.keeps_bind, Attempt.keeps_settled]
  refine ⟨?_, fun error _ => mayFail_of_underway rfl error⟩
  intro traceId isKey
  rw [Attempt.keeps_bind]
  apply keeps_load rfl rfl
  intro stored
  rw [Attempt.keeps_pure]
  exact OnlyReads.got isKey rfl

theorem keeps_loadForTagging
    {request : Request} {principal : Option String} {traceId : String}
    {ok : Knowledge → StoredTrace → Prop}
    (afterwards :
      ∀ known stored, known.stage = .underway →
        known.reading = some (traceId, some stored) →
        (stored.trace.info.location, principal) ∈ known.permitted →
        ok known stored) :
    Attempt.Keeps (contract settings request) ok MayFail {}
      (Service.loadForTagging principal traceId) := by
  unfold Service.loadForTagging
  rw [Attempt.keeps_bind]
  apply keeps_load rfl rfl
  intro stored
  rw [Attempt.keeps_bind]
  apply keeps_authorize rfl
  rw [Attempt.keeps_pure]
  exact afterwards _ stored rfl rfl List.mem_cons_self

theorem keeps_setTag
    (principal : Option String) (named given value : String) :
    Attempt.Keeps (contract settings (.setTag principal named given value))
      (MayAnswer (.setTag principal named given value)) MayFail {}
      (Service.setTag principal named given value) := by
  unfold Service.setTag
  rw [Attempt.keeps_bind, Attempt.keeps_settled]
  refine ⟨?_, fun error _ => mayFail_of_underway rfl error⟩
  intro key isTagKey
  rw [Attempt.keeps_bind, Attempt.keeps_settled]
  refine ⟨?_, fun error _ => mayFail_of_underway rfl error⟩
  intro traceId isTraceKey
  rw [Attempt.keeps_bind]
  apply keeps_loadForTagging
  intro known stored underway reading permitted
  rw [Attempt.keeps_bind]
  apply keeps_replace underway
  · exact Warrants.tagged isTagKey isTraceKey reading permitted
  · intro record
    rw [Attempt.keeps_pure]
    rfl

theorem keeps_deleteTag
    (principal : Option String) (named given : String) :
    Attempt.Keeps (contract settings (.deleteTag principal named given))
      (MayAnswer (.deleteTag principal named given)) MayFail {}
      (Service.deleteTag principal named given) := by
  unfold Service.deleteTag
  rw [Attempt.keeps_bind, Attempt.keeps_settled]
  refine ⟨?_, fun error _ => mayFail_of_underway rfl error⟩
  intro key isTagKey
  rw [Attempt.keeps_bind, Attempt.keeps_settled]
  refine ⟨?_, fun error _ => mayFail_of_underway rfl error⟩
  intro traceId isTraceKey
  rw [Attempt.keeps_bind]
  apply keeps_loadForTagging
  intro known stored underway reading permitted
  by_cases present : stored.trace.info.tags.contains key = true
  · rw [if_pos present, Attempt.keeps_bind]
    apply keeps_replace underway
    · exact Warrants.untagged isTagKey isTraceKey reading permitted present
    · intro record
      rw [Attempt.keeps_pure]
      rfl
  · rw [if_neg present, Attempt.keeps_pure]
    have absent : stored.trace.info.tags.contains key = false :=
      Bool.eq_false_iff.mpr present
    unfold MayAnswer
    rw [underway]
    exact OnlyReads.untagged isTagKey isTraceKey reading permitted absent

/-- Every request keeps its contract from the start. -/
theorem keeps_attempt (request : Request) :
    Attempt.Keeps (request.contract settings) request.MayAnswer MayFail {}
      (request.attempt settings) := by
  cases request with
  | submit principal message => exact keeps_submit principal message
  | get named => exact keeps_get named
  | setTag principal named key value =>
      exact keeps_setTag principal named key value
  | deleteTag principal named key =>
      exact keeps_deleteTag principal named key

end Whole

end Request

end TraceArchive
