import TraceArchive.Proofs.Service.Alone
import TraceArchive.Proofs.Service.Assignment
import TraceArchive.Proofs.Service.Merging
import TraceArchive.Proofs.Service.Running

/-!
# Requests about different traces

Two requests about different traces can be made in either order: each is
answered as if the other one had not been made, and the store is the same in the
end. They share the cache of experiments, but an experiment that one of them puts
there exists for the other one anyway. The main statement is
`commute_of_different`.
-/

namespace TraceArchive

/-! ## Worlds with different caches -/

/-- Whether a request finds that an experiment exists: the cache knows it or the
catalog confirms it. -/
def Conditions.Locates (conditions : Conditions) (world : World)
    (identifier : String) : Prop :=
  identifier ∈ world.cache.known ∨
    conditions.catalog identifier = .answered true

/-- Whether two worlds have the same records and the same identifiers to give,
and the same experiments are found in them. -/
structure World.Alike (conditions : Conditions) (world other : World) :
    Prop where
  store : other.store = world.store
  ids : other.ids = world.ids
  located :
    ∀ identifier,
      conditions.Locates other identifier ↔ conditions.Locates world identifier

namespace World

variable {conditions : Conditions} {world other : World} {call : Call}

theorem Alike.write
    (alike : Alike conditions world other) (deadline later : Nat)
    (id : String) (expected : Nat) (trace : Trace) :
    let outcome := world.write conditions deadline id expected trace
    let otherOutcome := other.write conditions later id expected trace
    otherOutcome.2 = outcome.2 ∧ otherOutcome.1.store = outcome.1.store ∧
      otherOutcome.1.ids = outcome.1.ids := by
  simp only [World.write, alike.store]
  split
  · simp [alike.store, alike.ids]
  · exact ⟨rfl, rfl, alike.ids⟩

theorem Alike.answer
    (alike : Alike conditions world other)
    (apart : call.isAboutExperiments = false) (deadline later : Nat) :
    let outcome := world.answer conditions deadline call
    let otherOutcome := other.answer conditions later call
    otherOutcome.2 = outcome.2 ∧ otherOutcome.1.store = outcome.1.store ∧
      otherOutcome.1.ids = outcome.1.ids := by
  cases call with
  | recallExperiment _ => cases apart
  | lookUpExperiment _ => cases apart
  | rememberExperiment _ => cases apart
  | allocateId =>
      simp only [World.answer, allocate, alike.ids]
      split
      · simp [alike.store, alike.ids]
      · exact ⟨rfl, alike.store, rfl⟩
  | readTrace id =>
      simp only [World.answer, read, alike.store]
      split
      · simp [alike.store, alike.ids]
      · exact ⟨rfl, rfl, alike.ids⟩
  | authorize location principal => simp [World.answer, alike.store, alike.ids]
  | createTrace trace => exact alike.write deadline later _ 0 trace
  | replaceTrace id expected trace =>
      exact alike.write deadline later id expected trace

theorem Alike.refl (conditions : Conditions) (world : World) :
    Alike conditions world world :=
  ⟨rfl, rfl, fun _ => Iff.rfl⟩

theorem Alike.trans
    {last : World} (first : Alike conditions world other)
    (second : Alike conditions other last) : Alike conditions world last :=
  ⟨second.store.trans first.store, second.ids.trans first.ids,
    fun identifier =>
      (second.located identifier).trans (first.located identifier)⟩

theorem alike_recall (identifier : String) (deadline : Nat) :
    Alike conditions world
      (world.answer conditions deadline (.recallExperiment identifier)).1 := by
  refine ⟨rfl, rfl, fun asked => ?_⟩
  simp only [Conditions.Locates, World.answer, ExperimentCache.consult]
  split
  · exact Iff.rfl
  · exact Iff.rfl

theorem alike_lookUp (identifier : String) (deadline : Nat) :
    Alike conditions world
      (world.answer conditions deadline (.lookUpExperiment identifier)).1 := by
  refine ⟨awaited_store, awaited_ids, fun asked => ?_⟩
  simp only [Conditions.Locates, World.answer, awaited_cache]

/-- Nothing else is found once a confirmed experiment is in the cache. -/
theorem alike_remember
    {identifier : String}
    (confirmed : conditions.catalog identifier = .answered true)
    (deadline : Nat) :
    Alike conditions world
      (world.answer conditions deadline
        (.rememberExperiment identifier)).1 := by
  refine ⟨rfl, rfl, fun asked => ?_⟩
  simp only [Conditions.Locates, World.answer, ExperimentCache.remember,
    List.mem_cons]
  constructor
  · rintro ((rfl | known) | found)
    · exact Or.inr confirmed
    · exact Or.inl known
    · exact Or.inr found
  · rintro (known | found)
    · exact Or.inl (Or.inr known)
    · exact Or.inr found

end World

/-! ## Making sure that an experiment exists -/

section Experiments

variable {conditions : Conditions} {deadline : Nat} {world : World}
  {identifier : String}

theorem requireExperiment_of_known
    (known : identifier ∈ world.cache.known) :
    let outcome :=
      (Access.requireExperiment identifier).runUntil conditions deadline world
    outcome.2 = .ok () ∧ World.Alike conditions world outcome.1 := by
  have recalled :
      (world.answer conditions deadline (.recallExperiment identifier)).2 =
        true := by
    simp [World.answer, ExperimentCache.consult, known]
  unfold Access.requireExperiment
  rw [Attempt.runUntil_bind, Attempt.runUntil_calling, recalled]
  exact ⟨rfl, World.alike_recall identifier deadline⟩

theorem requireExperiment_of_unknown
    (unknown : identifier ∉ world.cache.known) :
    let outcome :=
      (Access.requireExperiment identifier).runUntil conditions deadline world
    outcome.2 =
        Steady.verdict ⟨conditions.catalog, conditions.authorizer⟩ identifier ∧
      World.Alike conditions world outcome.1 := by
  have recalled :
      (world.answer conditions deadline (.recallExperiment identifier)).2 =
        false := by
    simp [World.answer, ExperimentCache.consult, unknown]
  unfold Access.requireExperiment Access.lookUp Steady.verdict
  rw [Attempt.runUntil_bind, Attempt.runUntil_calling, recalled]
  have alike :=
    @World.alike_recall conditions world identifier deadline
  generalize (world.answer conditions deadline (.recallExperiment identifier)).1
    = asked at alike ⊢
  simp only [Bool.false_eq_true, if_false]
  rw [Attempt.runUntil_bind, Attempt.runUntil_calling, World.answer_lookUp]
  have alikeAfter :=
    alike.trans (World.alike_lookUp identifier deadline)
  cases verdict : conditions.catalog identifier with
  | answered found =>
      cases found with
      | true =>
          exact ⟨rfl, alikeAfter.trans (World.alike_remember verdict deadline)⟩
      | false => exact ⟨rfl, alikeAfter⟩
  | failed error => exact ⟨rfl, alikeAfter⟩
  | stalled => exact ⟨rfl, alikeAfter⟩

theorem alike_requireExperiment
    (world : World) (deadline : Nat) (identifier : String) :
    World.Alike conditions world
      ((Access.requireExperiment identifier).runUntil conditions deadline
        world).1 := by
  by_cases known : identifier ∈ world.cache.known
  · exact (requireExperiment_of_known known).2
  · exact (requireExperiment_of_unknown known).2

/-- What is answered depends only on whether the experiment is found. -/
theorem requireExperiment_of_alike
    {other : World} (alike : World.Alike conditions world other)
    (later : Nat) :
    ((Access.requireExperiment identifier).runUntil conditions later other).2 =
      ((Access.requireExperiment identifier).runUntil conditions deadline
        world).2 := by
  have answered :
      ∀ (deadline : Nat) (asked : World),
        conditions.Locates asked identifier →
          ((Access.requireExperiment identifier).runUntil conditions deadline
            asked).2 = .ok () := by
    intro deadline asked located
    by_cases known : identifier ∈ asked.cache.known
    · exact (requireExperiment_of_known known).1
    · rw [(requireExperiment_of_unknown known).1]
      simp only [Steady.verdict, located.resolve_left known]
  by_cases located : conditions.Locates world identifier
  · rw [answered deadline world located,
      answered later other ((alike.located identifier).mpr located)]
  · have notKnown : identifier ∉ world.cache.known :=
      fun known => located (Or.inl known)
    have notKnownThere : identifier ∉ other.cache.known :=
      fun known => located ((alike.located identifier).mp (Or.inl known))
    rw [(requireExperiment_of_unknown notKnown).1,
      (requireExperiment_of_unknown notKnownThere).1]

end Experiments

/-! ## Requests do not depend on the cache -/

namespace Attempt

variable {Value : Type}

/-- Whether an attempt makes no other experiments be found, and ends the same in
worlds that are alike. -/
structure IgnoresCache (conditions : Conditions) (attempt : Attempt Value) :
    Prop where
  located :
    ∀ (world : World) (deadline : Nat) (identifier : String),
      conditions.Locates (attempt.runUntil conditions deadline world).1
          identifier ↔
        conditions.Locates world identifier
  same :
    ∀ {world other : World} (deadline later : Nat),
      World.Alike conditions world other →
        let outcome := attempt.runUntil conditions deadline world
        let otherOutcome := attempt.runUntil conditions later other
        otherOutcome.2 = outcome.2 ∧
          otherOutcome.1.store = outcome.1.store ∧
            otherOutcome.1.ids = outcome.1.ids

namespace IgnoresCache

variable {conditions : Conditions} {attempt : Attempt Value}

theorem alike
    (ignores : attempt.IgnoresCache conditions) {world other : World}
    (isAlike : World.Alike conditions world other) (deadline later : Nat) :
    World.Alike conditions (attempt.runUntil conditions deadline world).1
      (attempt.runUntil conditions later other).1 := by
  obtain ⟨_, store, ids⟩ := ignores.same deadline later isAlike
  refine ⟨store, ids, fun identifier => ?_⟩
  rw [ignores.located, ignores.located]
  exact isAlike.located identifier

theorem bind
    {Next : Type} {next : Value → Attempt Next}
    (first : attempt.IgnoresCache conditions)
    (second : ∀ value, (next value).IgnoresCache conditions) :
    (attempt >>= next).IgnoresCache conditions := by
  constructor
  · intro world deadline identifier
    have atFirst := first.located world deadline identifier
    rw [runUntil_bind]
    generalize attempt.runUntil conditions deadline world = outcome at atFirst ⊢
    obtain ⟨reached, result⟩ := outcome
    cases result with
    | error error => exact atFirst
    | ok value => exact ((second value).located _ _ _).trans atFirst
  · intro world other deadline later isAlike
    have atFirst := first.same deadline later isAlike
    have stillAlike := first.alike isAlike deadline later
    rw [runUntil_bind, runUntil_bind]
    generalize attempt.runUntil conditions deadline world = outcome
      at atFirst stillAlike ⊢
    generalize attempt.runUntil conditions later other = otherOutcome
      at atFirst stillAlike ⊢
    obtain ⟨reached, result⟩ := outcome
    obtain ⟨otherReached, otherResult⟩ := otherOutcome
    obtain rfl : otherResult = result := atFirst.1
    cases otherResult with
    | error error => exact ⟨rfl, atFirst.2⟩
    | ok value => exact (second value).same deadline later stillAlike

theorem of_isComposed (composed : attempt.IsComposed) :
    attempt.IgnoresCache conditions := by
  induction composed with
  | settled result =>
      exact
        ⟨fun _ _ _ => Iff.rfl,
          fun _ _ isAlike => ⟨rfl, isAlike.store, isAlike.ids⟩⟩
  | calling settle apart =>
      constructor
      · intro world deadline identifier
        unfold Conditions.Locates
        rw [runUntil_calling, (World.apart_answer apart).1]
      · intro world other deadline later isAlike
        obtain ⟨sameAnswer, left⟩ := isAlike.answer apart deadline later
        rw [runUntil_calling, runUntil_calling]
        exact ⟨congrArg settle sameAnswer, left⟩
  | requireExperiment identifier =>
      constructor
      · intro world deadline
        exact (alike_requireExperiment world deadline identifier).located
      · intro world other deadline later isAlike
        have left :=
          @alike_requireExperiment conditions world deadline identifier
        have otherLeft :=
          @alike_requireExperiment conditions other later identifier
        refine ⟨requireExperiment_of_alike isAlike later, ?_, ?_⟩
        · rw [otherLeft.store, isAlike.store, left.store]
        · rw [otherLeft.ids, isAlike.ids, left.ids]
  | bind _ _ first second => exact bind first second

end IgnoresCache

end Attempt

/-! ## Requests with an identifier -/

/-- Whether a request tells which trace it is about: a submission by what is
known of the trace or by its spans. -/
def Request.IsNamed : Request → Prop
  | .submit _ message => ¬message.IsUnnamed
  | _ => True

namespace Request

open Attempt

variable {settings : Settings}

/-- A submission has no spans only if none was sent. -/
theorem sent_eq_nil
    {message : Wire.Trace} {submission : Submission}
    (accepted : Submission.ofRequest settings message = .ok submission)
    (noSpans : submission.spanList = []) : message.spans.getD [] = [] := by
  obtain ⟨areSpans, acceptedSpans⟩ := Submission.spans_of_accepted accepted
  unfold Submission.spanList at noSpans
  rw [areSpans] at noSpans
  cases sent : message.spans with
  | none => rfl
  | some spans =>
      rw [sent] at noSpans acceptedSpans
      cases spans with
      | nil => rfl
      | cons first rest =>
          obtain ⟨_, span, checked⟩ := acceptedSpans first List.mem_cons_self
          have isSpan := Check.span_of_checkSpan checked
          simp [isSpan] at noSpans

theorem told_of_named
    {message : Wire.Trace} {submission : Submission}
    (named : ¬message.IsUnnamed)
    (accepted : Submission.ofRequest settings message = .ok submission) :
    submission.traceId? ≠ none := by
  intro untold
  unfold Submission.traceId? at untold
  split at untold
  · cases untold
  · rename_i noKey
    split at untold
    · cases untold
    · rename_i noSpans
      apply named
      refine ⟨?_, sent_eq_nil accepted noSpans⟩
      intro info isSent
      obtain ⟨sent, isInfo, checked⟩ := Submission.info_of_accepted accepted
      rw [isSent] at isInfo
      cases isInfo
      exact Check.givenTraceId?_eq_none checked noKey

/-- A request that tells which trace it is about takes no identifier from the
source. -/
theorem keeps_local_named
    {request : Request} (named : request.IsNamed) (ids : IdSequence) :
    Keeps (localContract (request.subject? settings ids))
      (fun _ _ => True) (fun _ _ => True) false
      (request.attempt settings) := by
  cases request with
  | submit principal message =>
      rw [attempt]
      cases accepted : Submission.ofRequest settings message with
      | error error =>
          unfold Service.submit
          rw [accepted]
          exact isLocal_bind_settled (by simp) false
      | ok submission =>
          simp only [subject?, accepted]
          refine keeps_local_submit ?_ ?_ accepted principal
          · intro id isTold
            rw [isTold]
            rfl
          · intro untold
            exact absurd untold (told_of_named named accepted)
  | get named =>
      rw [subject?, attempt]
      exact isLocal_get false
  | setTag principal named given value =>
      rw [subject?, attempt]
      exact isLocal_setTag principal given value false
  | deleteTag principal named given =>
      rw [subject?, attempt]
      exact isLocal_deleteTag principal given false

end Request

theorem Program.Keeps.ids_runUntil
    {Result : Type} {subject : Option String} {ends : Bool → Result → Prop}
    {program : Program Result} {world : World} {conditions : Conditions}
    {deadline : Nat}
    (keeps : program.Keeps (localContract subject) ends false) :
    (program.runUntil conditions deadline world).1.ids = world.ids := by
  let holds (mayAllocate : Bool) (reached : World) : Prop :=
    mayAllocate = false ∧ reached.ids = world.ids
  have step :
      ∀ mayAllocate before call, holds mayAllocate before →
        (localContract subject).demands mayAllocate call →
          let next := (before.answer conditions deadline call).1
          let answer := (before.answer conditions deadline call).2
          (localContract subject).admits mayAllocate call answer ∧
            holds ((localContract subject).next mayAllocate call answer)
              next := by
    rintro _ before call ⟨rfl, sameIds⟩ demanded
    cases call with
    | allocateId => cases demanded
    | _ =>
        refine ⟨trivial, rfl, ?_⟩
        rw [World.ids_answer _ (by rintro ⟨⟩)]
        exact sameIds
  obtain ⟨_, ⟨_, sameIds⟩, _⟩ := keeps.runUntil holds ⟨rfl, rfl⟩ step
  exact sameIds

/-! ## Two requests -/

namespace Request

variable {conditions : Conditions} {timeout : Nat} {world : World}
  {first second : Request}

theorem get?_of_ne_subject
    (settings : Settings) (request : Request) (world : World)
    (conditions : Conditions) (timeout : Nat) {id : String}
    (different : request.subject? settings world.ids ≠ some id) :
    ((request.attempt settings).run.runWithin conditions.alone timeout
        world).1.store.get? id =
      world.store.get? id := by
  obtain ⟨known, leaves, _⟩ :=
    leaves_of_request settings request world conditions timeout
  by_cases wrote : ∃ record, known.stage = .wrote record
  · obtain ⟨record, isRecord⟩ := wrote
    obtain ⟨isSubject, _, _, isPut⟩ := leaves.written record isRecord
    have notSubject : id ≠ record.trace.id := by
      rintro rfl
      exact different isSubject
    rw [isPut]
    exact world.store.get?_put_of_ne notSubject
  · rw [leaves.unwritten (not_exists.mp wrote)]

/-- A request that comes after another one about a different trace is answered
as if it came first, and leaves the same under its own identifier. -/
theorem same_after_other
    (settings : Settings) (firstNamed : first.IsNamed)
    (different :
      ∀ id, first.subject? settings world.ids = some id →
        second.subject? settings world.ids ≠ some id)
    (conditions : Conditions) (timeout : Nat) :
    let run (request : Request) :=
      (request.attempt settings).run.runWithin conditions.alone timeout
    (run second (run first world).1).2 = (run second world).2 ∧
      ∀ id,
        (run second (run first world).1).1.store.get? id =
          if second.subject? settings world.ids = some id then
            (run second world).1.store.get? id
          else (run first world).1.store.get? id := by
  intro run
  let reached := (run first world).1
  let beside : World := { world with store := reached.store }
  have sameIds : reached.ids = world.ids :=
    (Attempt.keeps_iff.mp
      (keeps_local_named firstNamed world.ids)).ids_runUntil
  have firstIgnores :
      (first.attempt settings).IgnoresCache conditions.alone :=
    .of_isComposed (first.isComposed_attempt settings)
  have secondIgnores :
      (second.attempt settings).IgnoresCache conditions.alone :=
    .of_isComposed (second.isComposed_attempt settings)
  have resembles :
      World.Resembles (second.subject? settings world.ids) world beside := by
    refine ⟨rfl, ?_⟩
    intro id isSecond
    apply get?_of_ne_subject
    intro isFirst
    exact different id isFirst isSecond
  have alike : World.Alike conditions.alone beside reached :=
    ⟨rfl, sameIds, firstIgnores.located world _⟩
  -- With the store of the first request alone, the second one runs as before it;
  -- what else the first one has left is in the cache.
  obtain ⟨sameBeside, leftBeside⟩ :=
    local_of_request settings second resembles conditions timeout
  obtain ⟨sameReached, leftReached, _⟩ :=
    secondIgnores.same (beside.clock + timeout) (reached.clock + timeout) alike
  refine ⟨sameReached.trans sameBeside, ?_⟩
  intro id
  by_cases isSecond : second.subject? settings world.ids = some id
  · rw [if_pos isSecond]
    exact
      (congrArg (fun store => store.get? id) leftReached).trans
        (leftBeside.record id isSecond)
  · rw [if_neg isSecond]
    apply get?_of_ne_subject
    rw [sameIds]
    exact isSecond

/-- Two requests with identifiers that are about different traces are answered
the same, and leave the same store, whichever comes first. -/
theorem commute_of_different
    (settings : Settings) (first second : Request) (world : World)
    (firstNamed : first.IsNamed) (secondNamed : second.IsNamed)
    (different :
      ∀ id, first.subject? settings world.ids = some id →
        second.subject? settings world.ids ≠ some id)
    (conditions : Conditions) (timeout : Nat) :
    let run (request : Request) :=
      (request.attempt settings).run.runWithin conditions.alone timeout
    let firstDone := run first world
    let secondDone := run second world
    let secondAfterwards := run second firstDone.1
    let firstAfterwards := run first secondDone.1
    firstAfterwards.2 = firstDone.2 ∧ secondAfterwards.2 = secondDone.2 ∧
      secondAfterwards.1.store = firstAfterwards.1.store := by
  intro run firstDone secondDone secondAfterwards firstAfterwards
  have differentSwapped :
      ∀ id, second.subject? settings world.ids = some id →
        first.subject? settings world.ids ≠ some id :=
    fun id isSecond isFirst => different id isFirst isSecond
  obtain ⟨sameFirst, leftFirst⟩ :=
    same_after_other settings secondNamed differentSwapped conditions timeout
  obtain ⟨sameSecond, leftSecond⟩ :=
    same_after_other settings firstNamed different conditions timeout
  refine ⟨sameFirst, sameSecond, ?_⟩
  apply TraceStore.ext_get?
  intro id
  refine (leftSecond id).trans (Eq.trans ?_ (leftFirst id).symm)
  by_cases isFirst : first.subject? settings world.ids = some id
  · rw [if_neg (different id isFirst), if_pos isFirst]
  · rw [if_neg isFirst]
    by_cases isSecond : second.subject? settings world.ids = some id
    · rw [if_pos isSecond]
    · rw [if_neg isSecond]
      rw [get?_of_ne_subject settings first world conditions timeout isFirst,
        get?_of_ne_subject settings second world conditions timeout isSecond]

theorem isNamed_taggedMessage
    {given : String} (tells : Check.nonBlank? (some given) = some given)
    (tag : String) :
    (submit none (Traffic.taggedMessage (some given) tag)).IsNamed := by
  intro unnamed
  have untold := unnamed.info _ rfl
  change Check.nonBlank? (some given) = none at untold
  rw [tells] at untold
  cases untold

/-- Of two submissions to one experiment only the one that comes first asks the
catalog for it. -/
theorem commute_taggedMessage :
    let world := World.initial (.start 0)
    let first := submit none (Traffic.taggedMessage (some "01") "first")
    let second := submit none (Traffic.taggedMessage (some "02") "second")
    let run (request : Request) :=
      (request.attempt {}).run.runWithin (Conditions.alone {}) 0
    let firstDone := run first world
    let secondDone := run second world
    let secondAfterwards := run second firstDone.1
    let firstAfterwards := run first secondDone.1
    (firstDone.2.toOption.isSome ∧ secondAfterwards.2.toOption.isSome ∧
        firstDone.1.lookups = ["1"] ∧ secondAfterwards.1.lookups = ["1"]) ∧
      firstAfterwards.2 = firstDone.2 ∧ secondAfterwards.2 = secondDone.2 ∧
        secondAfterwards.1.store = firstAfterwards.1.store := by
  intro world first second run firstDone secondDone secondAfterwards
    firstAfterwards
  have isFirst : first.subject? {} world.ids = some "01" := by decide +kernel
  have isSecond : second.subject? {} world.ids = some "02" := by
    decide +kernel
  refine ⟨by decide +kernel, ?_⟩
  -- Otherwise the runs would be evaluated to compare them with themselves.
  with_reducible
    refine
      commute_of_different {} first second world
        (isNamed_taggedMessage ?_ "first") (isNamed_taggedMessage ?_ "second")
        ?_ {} 0
  · decide +kernel
  · decide +kernel
  · intro id atFirst atSecond
    rw [← atSecond, isFirst, isSecond] at atFirst
    revert atFirst
    decide

end Request

end TraceArchive
