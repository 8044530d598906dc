import TraceArchive.Proofs.Service.Traffic

/-!
# How requests are composed

A request asks the catalog and its cache for nothing but whether an experiment
exists. What is true of that question and of all other calls, and of attempts
when it is of their parts, is therefore true of every request. The main
statement is `isComposed_attempt`.
-/

namespace TraceArchive

/-- Whether a call is about the experiments that exist. -/
def Call.isAboutExperiments : Call → Bool
  | .recallExperiment _ => true
  | .lookUpExperiment _ => true
  | .rememberExperiment _ => true
  | _ => false

/-- A call that is not about experiments leaves the cache alone and asks the
catalog nothing. -/
theorem World.apart_answer
    {world : World} {conditions : Conditions} {deadline : Nat} {call : Call}
    (apart : call.isAboutExperiments = false) :
    (world.answer conditions deadline call).1.cache = world.cache ∧
      (world.answer conditions deadline call).1.lookups = world.lookups := by
  cases call with
  | recallExperiment _ => cases apart
  | lookUpExperiment _ => cases apart
  | rememberExperiment _ => cases apart
  | allocateId =>
      simp only [answer, allocate]
      split
      · exact ⟨awaited_cache, awaited_lookups⟩
      · exact ⟨rfl, rfl⟩
  | readTrace id =>
      simp only [answer, read]
      split
      · exact ⟨awaited_cache, awaited_lookups⟩
      · exact ⟨rfl, rfl⟩
  | authorize location principal => exact ⟨awaited_cache, awaited_lookups⟩
  | createTrace trace =>
      simp only [answer, write]
      split
      · exact ⟨awaited_cache, awaited_lookups⟩
      · exact ⟨rfl, rfl⟩
  | replaceTrace id expected trace =>
      simp only [answer, write]
      split
      · exact ⟨awaited_cache, awaited_lookups⟩
      · exact ⟨rfl, rfl⟩

/-- Whether an attempt is composed of results, of calls that are not about
experiments, and of the question whether an experiment exists. -/
inductive Attempt.IsComposed : {Value : Type} → Attempt Value → Prop
  | settled {Value : Type} (result : Except ServiceError Value) :
      IsComposed (settled result)
  | calling {Value : Type} {call : Call}
      (settle : call.Answer → Except ServiceError Value) :
      call.isAboutExperiments = false → IsComposed (calling call settle)
  | requireExperiment (identifier : String) :
      IsComposed (Access.requireExperiment identifier)
  | bind {Value Next : Type} {attempt : Attempt Value}
      {next : Value → Attempt Next} :
      IsComposed attempt → (∀ value, IsComposed (next value)) →
      IsComposed (attempt >>= next)

namespace Attempt.IsComposed

theorem pure
    {Value : Type} (value : Value) :
    IsComposed (Pure.pure value : Attempt Value) :=
  settled (.ok value)

theorem require (violations : List Violation) :
    IsComposed (Attempt.require violations) := by
  unfold Attempt.require
  split
  · exact settled _
  · exact settled _

/-! ## Access -/

theorem authorize (location : TraceLocation) (principal : Option String) :
    IsComposed (Access.authorize location principal) := by
  apply bind
  · exact calling _ rfl
  · intro allowed
    split
    · exact pure ()
    · exact settled _

theorem resolve (location : TraceLocation) (principal : Option String) :
    IsComposed (Access.resolve location principal) := by
  apply bind
  · unfold Access.target
    split
    · exact bind (requireExperiment _) fun _ => pure _
    · split
      · exact pure _
      · exact settled _
  · intro target
    exact bind (authorize location principal) fun _ => pure _

/-! ## Reading and writing -/

theorem read (id : String) : IsComposed (Service.read id) :=
  calling _ rfl

theorem load (id : String) : IsComposed (Service.load id) := by
  apply bind (read id)
  intro found
  cases found with
  | none => exact settled _
  | some record => exact pure record

theorem loadForTagging (principal : Option String) (id : String) :
    IsComposed (Service.loadForTagging principal id) := by
  apply bind (load id)
  intro stored
  exact bind (authorize _ principal) fun _ => pure stored

theorem create (trace : Trace) : IsComposed (Service.create trace) :=
  calling _ rfl

theorem replace
    (operation : Operation) (id : String) (stored : StoredTrace)
    (trace : Trace) :
    IsComposed (Service.replace operation id stored trace) :=
  calling _ rfl

/-! ## Requests -/

theorem settleId (submission : Submission) :
    IsComposed (Service.settleId submission) := by
  unfold Service.settleId
  split
  · exact pure _
  · exact bind (calling _ rfl) fun _ => pure _

theorem submit
    (settings : Settings) (principal : Option String)
    (message : Wire.Trace) :
    IsComposed (Service.submit settings principal message) := by
  apply bind (settled _)
  intro submission
  apply bind (settleId submission)
  intro traceId
  apply bind (require _)
  intro _
  apply bind (read traceId)
  intro found
  cases found with
  | none =>
      apply bind (resolve _ principal)
      intro _
      apply bind (settled _)
      intro trace
      exact bind (create trace) fun _ => pure _
  | some stored =>
      apply bind (settled _)
      intro _
      apply bind (resolve _ principal)
      intro _
      apply bind (settled _)
      intro trace
      exact bind (replace _ traceId stored trace) fun _ => pure _

theorem get (named : String) : IsComposed (Service.get named) := by
  apply bind (settled _)
  intro traceId
  exact bind (load traceId) fun _ => pure _

theorem setTag
    (principal : Option String) (named given value : String) :
    IsComposed (Service.setTag principal named given value) := by
  apply bind (settled _)
  intro key
  apply bind (settled _)
  intro traceId
  apply bind (loadForTagging principal traceId)
  intro stored
  exact bind (replace _ traceId stored _) fun _ => pure _

theorem deleteTag (principal : Option String) (named given : String) :
    IsComposed (Service.deleteTag principal named given) := by
  apply bind (settled _)
  intro key
  apply bind (settled _)
  intro traceId
  apply bind (loadForTagging principal traceId)
  intro stored
  split
  · exact bind (replace _ traceId stored _) fun _ => pure _
  · exact pure _

end Attempt.IsComposed

theorem Request.isComposed_attempt
    (settings : Settings) (request : Request) :
    (request.attempt settings).IsComposed := by
  cases request with
  | submit principal message => exact .submit settings principal message
  | get named => exact .get named
  | setTag principal named given value =>
      exact .setTag principal named given value
  | deleteTag principal named given => exact .deleteTag principal named given

end TraceArchive
