import TraceArchive.Proofs.Service.Effects
import TraceArchive.Proofs.Service.Running
import TraceArchive.Proofs.Service.Success
import TraceArchive.Proofs.Service.WellFormed

/-!
# Removing tags

A tag is removed under its key without the blanks around it, and so it is set; but
a submission brings in tags under any keys. So a tag can be removed if and only if
its key has no blanks around it and is not empty, and all other keys were
submitted: `Traffic.removal_of_run`.
-/

namespace TraceArchive

/-! ## Keys -/

/-- Whether a text can be the key of a tag that is set or removed: it is not
empty, and no blanks are around it. -/
structure IsTagKey (key : String) : Prop where
  filled : key ≠ ""
  plain : Text.trimmed key = key

namespace Service

variable {given key : String}

theorem tagKey_of_filled (filled : Text.trimmed given ≠ "") :
    tagKey given = .ok (Text.trimmed given) := by
  have notEmpty : ¬(Text.trimmed given).isEmpty = true := by
    rw [String.isEmpty_iff]
    exact filled
  simp only [tagKey, if_neg notEmpty]

theorem tagKey_of_blank (blank : Text.trimmed given = "") :
    tagKey given = .error (.rejected [.missingField "key"]) := by
  have isEmpty : (Text.trimmed given).isEmpty = true := by
    rw [String.isEmpty_iff]
    exact blank
  simp only [tagKey, if_pos isEmpty]

theorem isTagKey_of_tagKey (isKey : tagKey given = .ok key) :
    IsTagKey key := by
  have trimmed := Request.key_of_tagKey isKey
  refine ⟨?_, ?_⟩
  · intro isEmpty
    rw [tagKey_of_blank (trimmed.trans isEmpty)] at isKey
    cases isKey
  · rw [← trimmed, Text.trimmed_trimmed]

end Service

/-! ## One tag less -/

/-- Whether a trace is another one without the tag under a key. -/
structure Trace.IsWithout (key : String) (before after : Trace) : Prop where
  others : after = before.withTags after.info.tags
  removed : after.info.tags.find? key = none
  kept :
    ∀ other, other ≠ key →
      after.info.tags.find? other = before.info.tags.find? other

namespace Trace

variable {trace : Trace} {key : String}

theorem isWithout_withoutTag :
    trace.IsWithout key (Service.withoutTag trace key) where
  others := rfl
  removed := KeyMap.find?_erase_self _ _
  kept _ different := KeyMap.find?_erase_of_ne _ different

theorem isWithout_self (absent : ¬trace.info.tags.contains key = true) :
    trace.IsWithout key trace where
  others := rfl
  removed := Option.not_isSome_iff_eq_none.mp absent
  kept _ _ := rfl

end Trace

/-- Whether nothing keeps a client from changing the tags of the trace with an
identifier at a location: its record can be read and written, and the authorizer
agrees. -/
structure Conditions.PermitTagging (conditions : Conditions) (id : String)
    (location : TraceLocation) (principal : Option String) : Prop where
  readable : conditions.reading id = none
  writable : conditions.writing id = none
  authorized : conditions.authorizer location principal = .answered true

namespace Attempt

variable {conditions : Conditions} {id given key : String}
  {principal : Option String} {record : StoredTrace}

section EndsWell

variable {known : List String} {store : TraceStore}

theorem endsWell_load
    (readable : conditions.reading id = none)
    (stored : store.get? id = some record) :
    EndsWell conditions known store store record (Service.load id) := by
  refine endsWell_bind (endsWell_read readable) ?_
  rw [stored]
  exact endsWell_pure record

theorem endsWell_loadForTagging
    (permit :
      conditions.PermitTagging id record.trace.info.location principal)
    (stored : store.get? id = some record) :
    EndsWell conditions known store store record
      (Service.loadForTagging principal id) := by
  refine endsWell_bind (endsWell_load permit.readable stored) ?_
  exact
    endsWell_bind (endsWell_authorize permit.authorized) (endsWell_pure record)

variable {named : String}
  (permit : conditions.PermitTagging id record.trace.info.location principal)
  (stored : store.get? id = some record)
  (isId : Service.traceKey named = .ok id)
  (isKey : Service.tagKey given = .ok key)

include permit stored isId isKey

theorem endsWell_setTag
    (sameId : record.trace.id = id) (isNumbered : 1 ≤ record.version)
    (value : String) :
    EndsWell conditions known store
      (store.put ⟨Service.withTag record.trace key value, record.version + 1⟩)
      (Service.withTag record.trace key value)
      (Service.setTag principal named given value) := by
  have stillSame : (Service.withTag record.trace key value).id = id := sameId
  have replaced :=
    @endsWell_replace _ known _ _ permit.writable _ stored isNumbered _
      stillSame .setTag
  refine endsWell_bind (endsWell_settled isKey) ?_
  refine endsWell_bind (endsWell_settled isId) ?_
  refine endsWell_bind (endsWell_loadForTagging permit stored) ?_
  exact endsWell_bind replaced (endsWell_pure _)

theorem endsWell_deleteTag_of_present
    (sameId : record.trace.id = id) (isNumbered : 1 ≤ record.version)
    (present : record.trace.info.tags.contains key = true) :
    EndsWell conditions known store
      (store.put ⟨Service.withoutTag record.trace key, record.version + 1⟩)
      (Service.withoutTag record.trace key)
      (Service.deleteTag principal named given) := by
  have stillSame : (Service.withoutTag record.trace key).id = id := sameId
  have replaced :=
    @endsWell_replace _ known _ _ permit.writable _ stored isNumbered _
      stillSame .deleteTag
  refine endsWell_bind (endsWell_settled isKey) ?_
  refine endsWell_bind (endsWell_settled isId) ?_
  refine endsWell_bind (endsWell_loadForTagging permit stored) ?_
  rw [if_pos present]
  exact endsWell_bind replaced (endsWell_pure _)

theorem endsWell_deleteTag_of_absent
    (absent : ¬record.trace.info.tags.contains key = true) :
    EndsWell conditions known store store record.trace
      (Service.deleteTag principal named given) := by
  refine endsWell_bind (endsWell_settled isKey) ?_
  refine endsWell_bind (endsWell_settled isId) ?_
  refine endsWell_bind (endsWell_loadForTagging permit stored) ?_
  rw [if_neg absent]
  exact endsWell_pure _

end EndsWell

variable {world : World}

/-- What a client finds after it has removed the tag under a key, whatever blanks
it has put around the key. -/
theorem runWithin_deleteTag
    (permit :
      conditions.PermitTagging id record.trace.info.location principal)
    (stored : world.store.get? id = some record)
    (isId : Service.traceKey id = .ok id) (named : record.trace.id = id)
    (isNumbered : 1 ≤ record.version)
    (isKey : Service.tagKey given = .ok key) (timeout : Nat) :
    let outcome :=
      (Service.deleteTag principal id given).run.runWithin conditions.alone
        timeout world
    ∃ left : StoredTrace, outcome.2 = .ok left.trace ∧
      record.trace.IsWithout key left.trace ∧
        outcome.1.store.get? id = some left ∧
          (record.trace.info.tags.contains key = true →
            left.version = record.version + 1) ∧
            ∀ other, other ≠ id →
              outcome.1.store.get? other = world.store.get? other := by
  intro outcome
  by_cases present : record.trace.info.tags.contains key = true
  · obtain ⟨succeeds, left⟩ :=
      (endsWell_deleteTag_of_present permit stored isId isKey named isNumbered
        present).runWithin timeout
    have sameId : (Service.withoutTag record.trace key).id = id := named
    refine
      ⟨⟨Service.withoutTag record.trace key, record.version + 1⟩, succeeds,
        Trace.isWithout_withoutTag, ?_, fun _ => rfl, ?_⟩
    · rw [left, ← sameId]
      exact TraceStore.get?_put_self _ _
    · intro other different
      rw [left]
      exact TraceStore.get?_put_of_ne _ (sameId ▸ different)
  · obtain ⟨succeeds, left⟩ :=
      (endsWell_deleteTag_of_absent permit stored isId isKey present).runWithin
        timeout
    refine
      ⟨record, succeeds, Trace.isWithout_self present, ?_,
        fun isPresent => absurd isPresent present, ?_⟩
    · rw [left, stored]
    · intro other _
      rw [left]

theorem runWithin_deleteTag_of_blank
    (blank : Text.trimmed given = "") (timeout : Nat) :
    (Service.deleteTag principal id given).run.runWithin conditions timeout
        world =
      (world, .error (.rejected [.missingField "key"])) := by
  change
    (Service.deleteTag principal id given).runUntil conditions
      (world.clock + timeout) world = _
  rw [Service.deleteTag, runUntil_bind, runUntil_settled,
    Service.tagKey_of_blank blank]

end Attempt

/-! ## Where keys come from -/

/-- Whether a client submits a trace with a tag under a key. -/
def WasTagged {Client : Type} (requests : Client → Request) (key : String) :
    Prop :=
  ∃ client principal message info,
    requests client = .submit principal message ∧
      message.info = some info ∧ info.tags.contains key = true

/-- The keys of the tags after a submission are those that it tells of and those
that were there. -/
theorem Submission.contains_tags_iff
    {settings : Settings} {message : Wire.Trace} {submission : Submission}
    {stored : Option Trace} {traceId : String} {trace : Trace}
    (accepted : ofRequest settings message = .ok submission)
    (isResult : submission.result settings stored traceId = .ok trace)
    {key : String} :
    trace.info.tags.contains key = true ↔
      (∃ info, message.info = some info ∧ info.tags.contains key = true) ∨
        ∃ previous, stored = some previous ∧
          previous.info.tags.contains key = true := by
  obtain ⟨info, isInfo, isDraft⟩ := info_of_accepted accepted
  have sent :
      info.tags.contains key = submission.info.tags.contains key := by
    rw [KeyMap.contains, ← (Check.takes_of_checkInfo isDraft).tags,
      KeyMap.find?_mapValues, Option.isSome_map, KeyMap.contains]
  have isMerged :
      trace.info.tags = (submission.merged settings stored traceId).info.tags :=
    congrArg TraceInfo.tags (parts_of_result isResult).2.1
  simp only [isInfo, Option.some.injEq, exists_eq_left', sent, isMerged]
  cases stored with
  | none => simp [merged, InfoDraft.toInfo]
  | some previous =>
      have isUnion :
          (submission.merged settings (some previous) traceId).info.tags =
            previous.info.tags.union submission.info.tags := rfl
      simp only [isUnion, KeyMap.contains, KeyMap.find?_union,
        Option.isSome_or, Bool.or_eq_true, Option.some.injEq,
        exists_eq_left']

/-- A key with blanks around it, or an empty one, was submitted. -/
theorem Life.tagged
    {Client : Type} {settings : Settings} {requests : Client → Request}
    {id : String} {commits : List (Commit Client)}
    (life : Life settings requests id commits) :
    ∀ record ∈ recordsOf commits, ∀ key,
      record.trace.info.tags.contains key = true →
        IsTagKey key ∨ WasTagged requests key := by
  let property (trace : Trace) : Prop :=
    ∀ key, trace.info.tags.contains key = true →
      IsTagKey key ∨ WasTagged requests key
  refine @Life.forall_of_makes _ _ _ _ _ property life ?_
  intro client previous trace makes before key tagged
  generalize isRequest : requests client = request at makes
  cases makes with
  | @created principal message _ _ _ fits isResult =>
      rcases
          (Submission.contains_tags_iff fits.accepted isResult).mp tagged with
        ⟨info, isInfo, submitted⟩ | ⟨_, none, _⟩
      · exact
          Or.inr ⟨client, principal, message, info, isRequest, isInfo,
            submitted⟩
      · cases none
  | @updated principal message _ _ stored _ fits _ isResult =>
      rcases
          (Submission.contains_tags_iff fits.accepted isResult).mp tagged with
        ⟨info, isInfo, submitted⟩ | ⟨_, same, earlier⟩
      · exact
          Or.inr ⟨client, principal, message, info, isRequest, isInfo,
            submitted⟩
      · cases same
        exact (before stored rfl).2 key earlier
  | @tagged _ _ _ value set stored isKey =>
      by_cases same : key = set
      · rw [same]
        exact Or.inl (Service.isTagKey_of_tagKey isKey)
      · refine (before stored rfl).2 key ?_
        have isInsert :
            (Service.withTag stored.trace set value).info.tags =
              stored.trace.info.tags.insert set value := rfl
        rwa [isInsert, KeyMap.contains, KeyMap.find?_insert_of_ne _ same]
          at tagged
  | @untagged _ _ _ removed stored _ _ =>
      refine (before stored rfl).2 key ?_
      have without :=
        @Trace.isWithout_withoutTag stored.trace removed
      by_cases same : key = removed
      · rw [same, KeyMap.contains, without.removed] at tagged
        cases tagged
      · rwa [KeyMap.contains, without.kept key same] at tagged

/-- A request leaves every tag whose key has blanks around it, or is empty. -/
theorem Request.contains_of_makes
    {settings : Settings} {request : Request} {stored : StoredTrace}
    {trace : Trace} (makes : request.Makes settings (some stored) trace)
    {key : String} (notKey : ¬IsTagKey key)
    (tagged : stored.trace.info.tags.contains key = true) :
    trace.info.tags.contains key = true := by
  cases makes with
  | updated fits _ isResult =>
      exact
        (Submission.contains_tags_iff fits.accepted isResult).mpr
          (Or.inr ⟨stored.trace, rfl, tagged⟩)
  | @tagged _ _ _ value set _ isKey =>
      have different : key ≠ set := by
        rintro rfl
        exact notKey (Service.isTagKey_of_tagKey isKey)
      have isInsert :
          (Service.withTag stored.trace set value).info.tags =
            stored.trace.info.tags.insert set value := rfl
      rwa [isInsert, KeyMap.contains, KeyMap.find?_insert_of_ne _ different]
  | @untagged _ _ _ removed _ isKey _ =>
      have different : key ≠ removed := by
        rintro rfl
        exact notKey (Service.isTagKey_of_tagKey isKey)
      have without :=
        @Trace.isWithout_withoutTag stored.trace removed
      rwa [KeyMap.contains, without.kept key different]

/-- A tag whose key has blanks around it, or is empty, stays as long as its
trace. -/
theorem Life.contains_of_contains
    {Client : Type} {settings : Settings} {requests : Client → Request}
    {id : String} {commits : List (Commit Client)}
    (life : Life settings requests id commits) {key : String}
    (notKey : ¬IsTagKey key) :
    (recordsOf commits).Pairwise fun earlier later =>
      earlier.trace.info.tags.contains key = true →
        later.trace.info.tags.contains key = true := by
  have step :
      (recordsOf commits).IsChain fun earlier later =>
        earlier.trace.info.tags.contains key = true →
          later.trace.info.tags.contains key = true := by
    refine List.isChain_map_of_isChain Commit.record ?_ life.isChain
    exact fun _ _ makes => Request.contains_of_makes makes notKey
  have transitive :
      IsTrans StoredTrace fun earlier later =>
        earlier.trace.info.tags.contains key = true →
          later.trace.info.tags.contains key = true :=
    ⟨fun _ _ _ first second => second ∘ first⟩
  exact step.pairwise

/-! ## Runs -/

theorem Service.traceKey_of_isKey {id : String} (isKey : IsKey id) :
    traceKey id = .ok id := by
  rw [traceKey, Identifier.keyOf?_of_isKey isKey]

namespace Traffic

variable {Client : Type} [DecidableEq Client]

/-- After any run from the empty store, a client whom nothing keeps from changing
the tags of a trace removes a tag by its key, and nothing else, if no blanks are
around the key and it is not empty. Otherwise the tag stays as it is: the request
is refused if there is nothing but blanks, and else it succeeds and answers with
the trace that has the tag. Such a key was submitted. -/
theorem removal_of_run
    (settings : Settings) (requests : Client → Request) (ids : IdSequence)
    (turns : List (Turn Client)) {id : String} {record : StoredTrace}
    (stored :
      ((start settings requests (World.initial ids)).run
        turns).world.store.get? id = some record)
    {key : String} (tagged : record.trace.info.tags.contains key = true) :
    (¬IsTagKey key → WasTagged requests key) ∧
      ∀ (world : World) (conditions : Conditions) (principal : Option String)
        (timeout : Nat),
        world.store.get? id = some record →
        conditions.PermitTagging id record.trace.info.location principal →
          let outcome :=
            (Service.deleteTag principal id key).run.runWithin
              conditions.alone timeout world
          (∀ other, other ≠ id →
            outcome.1.store.get? other = world.store.get? other) ∧
          (IsTagKey key →
            ∃ trace, outcome.2 = .ok trace ∧
              outcome.1.store.get? id = some ⟨trace, record.version + 1⟩ ∧
                record.trace.IsWithout key trace) ∧
          (¬IsTagKey key →
            ∃ left : StoredTrace, outcome.1.store.get? id = some left ∧
              left.trace.info.tags.find? key =
                  record.trace.info.tags.find? key ∧
                outcome.2 =
                  if Text.trimmed key = "" then
                    .error (.rejected [.missingField "key"])
                  else
                    .ok left.trace) := by
  obtain ⟨life, current⟩ := life_of_run settings requests ids turns id
  rw [current] at stored
  have member := List.mem_of_getLast? stored
  have named : record.trace.id = id := life.named record member
  have isId : Service.traceKey id = .ok id := by
    rw [← named]
    exact Service.traceKey_of_isKey (life.wellFormed record member).key
  refine ⟨?_, ?_⟩
  · intro notKey
    rcases life.tagged record member key tagged with isKey | submitted
    · exact absurd isKey notKey
    · exact submitted
  · intro world conditions principal timeout inWorld permit
    by_cases blank : Text.trimmed key = ""
    · have notKey : ¬IsTagKey key := fun isKey =>
        isKey.filled (isKey.plain.symm.trans blank)
      rw [Attempt.runWithin_deleteTag_of_blank blank]
      refine
        ⟨fun _ _ => rfl, fun isKey => absurd isKey notKey, fun _ => ?_⟩
      exact ⟨record, inWorld, rfl, (if_pos blank).symm⟩
    · obtain ⟨left, succeeds, without, isLeft, version, others⟩ :=
        Attempt.runWithin_deleteTag permit inWorld isId named
          (life.version_pos member) (Service.tagKey_of_filled blank) timeout
      refine ⟨others, ?_, ?_⟩
      · intro isKey
        rw [isKey.plain] at without version
        refine ⟨left.trace, succeeds, ?_, without⟩
        rw [isLeft, ← version tagged]
      · intro notKey
        refine ⟨left, isLeft, without.kept key ?_, ?_⟩
        · intro isPlain
          exact notKey ⟨fun isEmpty => blank (isPlain ▸ isEmpty), isPlain.symm⟩
        · rw [if_neg blank]
          exact succeeds

/-- A message with two tags under keys that differ in blanks only. -/
def twiceTagged : Wire.Trace where
  info :=
    some
      { traceId := some "01"
        location := some { experiment := some (some "1") }
        requestTime := some default
        state := some .ok
        tags :=
          (KeyMap.empty.insert "k" (.string "plain")).insert " k "
            (.string "padded") }

/-- Of two tags only the one under the plain key can be removed. -/
theorem removal_twiceTagged :
    let final :=
      (start {} (fun _ : Unit => .submit none twiceTagged)
          (World.initial (.start 0))).run
        (List.replicate 6 { client := () })
    ∃ record, final.world.store.get? "01" = some record ∧
      (let outcome :=
        (Service.deleteTag none "01" "k").run.runWithin (Conditions.alone {}) 0
          final.world
      ∃ trace, outcome.2 = .ok trace ∧
        outcome.1.store.get? "01" = some ⟨trace, record.version + 1⟩ ∧
          record.trace.IsWithout "k" trace) ∧
      let outcome :=
        (Service.deleteTag none "01" " k ").run.runWithin
          (Conditions.alone {}) 0 final.world
      ∃ left : StoredTrace, outcome.1.store.get? "01" = some left ∧
        left.trace.info.tags.find? " k " = some "padded" ∧
          outcome.2 = .ok left.trace := by
  intro final
  have isStored :
      (final.world.store.get? "01").map (fun record =>
          (record.trace.info.tags.find? "k",
            record.trace.info.tags.find? " k ")) =
        some (some "plain", some "padded") := by
    decide +kernel
  obtain ⟨record, isRecord, parts⟩ := Option.map_eq_some_iff.mp isStored
  simp only [Prod.mk.injEq] at parts
  obtain ⟨isPlain, isPadded⟩ := parts
  have permit :
      Conditions.PermitTagging {} "01" record.trace.info.location none :=
    ⟨rfl, rfl, rfl⟩
  have plain :=
    removal_of_run {} _ (.start 0) _ isRecord (Option.isSome_of_eq_some isPlain)
  have padded :=
    removal_of_run {} _ (.start 0) _ isRecord
      (Option.isSome_of_eq_some isPadded)
  obtain ⟨_, removes, _⟩ := plain.2 final.world {} none 0 isRecord permit
  obtain ⟨_, _, leaves⟩ := padded.2 final.world {} none 0 isRecord permit
  refine ⟨record, isRecord, removes ⟨by decide, by decide +kernel⟩, ?_⟩
  have notKey : ¬IsTagKey " k " := by
    rintro ⟨_, isPlain⟩
    revert isPlain
    decide +kernel
  obtain ⟨left, isLeft, isKept, answer⟩ := leaves notKey
  have notBlank : ¬Text.trimmed " k " = "" := by decide +kernel
  rw [if_neg notBlank] at answer
  exact ⟨left, isLeft, isKept.trans isPadded, answer⟩

/-- The removal of a tag whose key has blanks around it succeeds, leaves the tag
and takes the other one away. -/
theorem kept_twiceTagged :
    let final :=
      (start {} (fun _ : Unit => .submit none twiceTagged)
          (World.initial (.start 0))).run
        (List.replicate 6 { client := () })
    let outcome :=
      (Service.deleteTag none "01" " k ").run.runWithin (Conditions.alone {}) 0
        final.world
    (final.world.store.get? "01").map (·.trace.info.tags.contains " k ") =
        some true ∧
      outcome.2.toOption.map (·.info.tags.contains " k ") = some true ∧
        (outcome.1.store.get? "01").map (fun record =>
            (record.trace.info.tags.contains " k ",
              record.trace.info.tags.contains "k")) =
          some (true, false) := by
  decide +kernel

end Traffic

end TraceArchive
