import Mathlib.Data.List.Forall2
import TraceArchive.Proofs.Check.Written
import TraceArchive.Proofs.Wire.Binary

/-!
# Checking what travelled in binary form

What a check makes of a span does not depend on how its numbers were written.
So a span that was sent in binary form is accepted or refused as before, and
every list of accepted spans is accepted again, as the same spans. The main
statements are `Check.checkSpan_of_binary` and `Check.restored_from_binary`.
-/

namespace TraceArchive

/-! ## Checks -/

namespace Check

theorem attributes_asDoubles (map : KeyMap Json) :
    attributes (map.mapValues Json.asDoubles) = attributes map := by
  simp only [attributes, Attributes.decode_asDoubles]

theorem attributeViolations_asDoubles (path : String) (map : KeyMap Json) :
    attributeViolations path (map.mapValues Json.asDoubles) =
      attributeViolations path map := by
  simp only [attributeViolations, Attributes.decode_asDoubles]

theorem events_asDoubles (events : List Wire.Event) :
    (events.map Wire.Event.asDoubles).filterMap event? =
      events.filterMap event? := by
  have same : event? ∘ Wire.Event.asDoubles = event? := by
    funext event
    simp only [Function.comp_apply, event?, Wire.Event.asDoubles,
      attributes_asDoubles]
  rw [List.filterMap_map, same]

theorem links_asDoubles (links : List Wire.Link) :
    (links.map Wire.Link.asDoubles).filterMap link? =
      links.filterMap link? := by
  have same : link? ∘ Wire.Link.asDoubles = link? := by
    funext link
    simp only [Function.comp_apply, link?, Wire.Link.asDoubles,
      attributes_asDoubles]
  rw [List.filterMap_map, same]

theorem eventListViolations_asDoubles
    (path : String) (index : Nat) (events : List Wire.Event) :
    eventListViolations path index (events.map Wire.Event.asDoubles) =
      eventListViolations path index events := by
  induction events generalizing index with
  | nil => rfl
  | cons event rest inductionHypothesis =>
      simp only [List.map_cons, eventListViolations, inductionHypothesis,
        eventViolations, Wire.Event.asDoubles, attributeViolations_asDoubles]

theorem linkListViolations_asDoubles
    (path : String) (index : Nat) (links : List Wire.Link) :
    linkListViolations path index (links.map Wire.Link.asDoubles) =
      linkListViolations path index links := by
  induction links generalizing index with
  | nil => rfl
  | cons link rest inductionHypothesis =>
      simp only [List.map_cons, linkListViolations, inductionHypothesis,
        linkViolations, Wire.Link.asDoubles, attributeViolations_asDoubles]

/-- A span is checked alike with doubles. -/
theorem checkSpan_asDoubles (path : String) (message : Wire.Span) :
    checkSpan path message.asDoubles = checkSpan path message := by
  have sameSpan : span? message.asDoubles = span? message := by
    simp only [span?, Wire.Span.asDoubles, attributes_asDoubles,
      events_asDoubles, links_asDoubles]
  have sameViolations :
      fieldViolations path message.asDoubles =
        fieldViolations path message := by
    simp only [fieldViolations, Wire.Span.asDoubles,
      attributeViolations_asDoubles, eventListViolations_asDoubles,
      linkListViolations_asDoubles]
  simp only [checkSpan, sameSpan, sameViolations]

/-- The messages about spans are accepted with doubles, in their order, as the
same spans. -/
theorem checkSpans_asDoubles
    {kept : List Span} {messages : List Wire.Span}
    (written : Wire.Span.ofSpans kept = .ok messages)
    (checked : ∀ span ∈ kept, spanViolations span = [])
    (proper : ∀ span ∈ kept, span.Proper) :
    List.Forall₂
      (fun message original =>
        ∃ span, span.Same original ∧
          ∀ path, checkSpan path message = .ok span)
      (messages.map Wire.Span.asDoubles) kept := by
  rw [List.forall₂_map_left_iff]
  refine (checkSpans_ofSpans written checked fun span member =>
    (proper span member).filled).imp ?_
  rintro message original ⟨span, same, accepted⟩
  refine ⟨span, same, fun path => ?_⟩
  rw [checkSpan_asDoubles, accepted]

open Wire.Format (protobuf)

/-- Whatever spans were accepted from readable messages, the messages about them
can be written in binary form, and a body with them, if its bytes can be counted
in 64 bits, is read if it is read without them. In what is read no number was
left out, and the spans are accepted again, in their order, as the same
spans. -/
theorem restored_from_binary
    {kept : List Span}
    (accepted :
      ∀ span ∈ kept, ∃ path message deep,
        Wire.Span.Readable deep message ∧ checkSpan path message = .ok span) :
    ∃ messages, Wire.Span.ofSpans kept = .ok messages ∧
      ∀ info before,
        protobuf.decode (protobuf.encodeMessage { info }) = .ok before →
        (protobuf.encodeMessage { info, spans := some messages }).length <
          UInt64.size →
        ∃ decoded,
          protobuf.decode
              (protobuf.encodeMessage { info, spans := some messages }) =
            .ok { before with spans := some decoded } ∧
          (∀ message ∈ decoded, message.notFinite = []) ∧
          List.Forall₂
            (fun message original =>
              ∃ span, span.Same original ∧
                ∀ path, checkSpan path message = .ok span)
            decoded kept := by
  have sound : ∀ span ∈ kept, span.Sound := by
    intro span member
    obtain ⟨path, message, deep, -, isAccepted⟩ := accepted span member
    exact sound_of_checkSpan isAccepted
  have proper : ∀ span ∈ kept, span.Proper := by
    intro span member
    obtain ⟨path, message, deep, readable, isAccepted⟩ := accepted span member
    exact proper_of_checkSpan isAccepted readable.attributeMaps
  obtain ⟨messages, written⟩ :=
    Wire.Span.ofSpans_of_fit fun span member => (sound span member).fit
  have portable : ∀ message ∈ messages, message.Portable := by
    intro message member
    obtain ⟨original, isOriginal, writtenSpan⟩ :=
      exists_of_forall₂ (Wire.Span.forall₂_of_ofSpans written) member
    exact Wire.Span.portable_of_ofSpan writtenSpan (proper original isOriginal)
  refine ⟨messages, written, fun info before decoded short => ?_⟩
  refine ⟨messages.map Wire.Span.asDoubles, ?_, ?_, ?_⟩
  · rw [Wire.Format.decode_encodeMessage_spans portable short, decoded]
    rfl
  · rw [List.forall_mem_map]
    exact fun message member => (portable message member).complete
  · exact
      checkSpans_asDoubles written
        (fun span member => (sound span member).checked) proper

/-- Maps inside each other, of which the innermost is empty. -/
def nestedMaps : Nat → Json
  | 0 => .object []
  | depth + 1 => .object [("k", nestedMaps depth)]

theorem readable_nestedMaps (depth : Nat) :
    (nestedMaps depth).Readable (depth + 1) := by
  induction depth with
  | zero => exact ⟨Nat.zero_lt_one, .nil, trivial⟩
  | succ depth inductionHypothesis =>
      exact
        ⟨Nat.succ_pos _, List.pairwise_singleton _ _,
          inductionHypothesis, trivial⟩

/-- A message about a span with an event that has an attribute of the greatest
depth. -/
def deepMessage : Wire.Span where
  traceId := some ⟨[1]⟩
  spanId := some ⟨[2]⟩
  name := some "root"
  startTime := some 1
  endTime := some 2
  events :=
    [{ name := some "deep"
       attributes := KeyMap.empty.insert "k" (nestedMaps 31) }]

/-- The span of that message. -/
def deepSpan : Span :=
  (Span.plain ⟨[1]⟩ ⟨[2]⟩ "root" 1 2).withEvent
    { SpanEvent.plain "deep" 0 with
      attributes := attributes (KeyMap.empty.insert "k" (nestedMaps 31)) }

theorem readable_deepMessage : Wire.Span.Readable 32 deepMessage := by
  refine ⟨List.forall_mem_nil _, ?_, List.forall_mem_nil _⟩
  rw [deepMessage, List.forall_mem_singleton]
  exact List.forall_mem_singleton.mpr (readable_nestedMaps 31)

/-- A span with an attribute of the greatest depth is restored. -/
theorem restored_from_binary_deepSpan :
    ∃ messages, Wire.Span.ofSpans [deepSpan] = .ok messages ∧
      ∃ decoded,
        protobuf.decode
            (protobuf.encodeMessage { info := none, spans := some messages }) =
          .ok { info := none, spans := some decoded } ∧
        (∀ message ∈ decoded, message.notFinite = []) ∧
        List.Forall₂
          (fun message original =>
            ∃ span, span.Same original ∧
              ∀ path, checkSpan path message = .ok span)
          decoded [deepSpan] := by
  have accepted :
      ∀ span ∈ [deepSpan], ∃ path message deep,
        Wire.Span.Readable deep message ∧ checkSpan path message = .ok span :=
    List.forall_mem_singleton.mpr
      ⟨"span", deepMessage, 32, readable_deepMessage, rfl⟩
  obtain ⟨messages, written, restored⟩ := restored_from_binary accepted
  have areShort :
      ((Wire.Span.ofSpans [deepSpan]).toOption.all fun messages =>
        decide
          ((protobuf.encodeMessage
            { info := none, spans := some messages }).length <
              UInt64.size)) = true := by
    decide +kernel
  rw [written] at areShort
  exact
    ⟨messages, written, restored none {} rfl (of_decide_eq_true areShort)⟩

/-! ## Any span -/

/-- Every span that JSON can carry survives the way into the binary form and
back: it is checked as before at every path, be it accepted as the same span or
refused with the same violations in the same order. -/
theorem checkSpan_of_binary
    {message : Wire.Span} (carried : message.Carried) :
    ∃ back, Wire.Span.ofBinary message.toBinary = .ok back ∧
      ∀ path, checkSpan path back = checkSpan path message :=
  ⟨message.asDoubles, Wire.Span.ofBinary_toBinary carried,
    fun path => checkSpan_asDoubles path message⟩

/-- A message about a span without an identifier of its own and without an end.
One of its attributes is a whole number between two doubles, its event has no
name and an attribute that is too deep, and its link has an empty identifier. -/
def refusedMessage : Wire.Span where
  traceId := some ⟨[1]⟩
  name := some "root"
  startTime := some 5
  attributes :=
    KeyMap.empty.insert "count" (Json.ofWord 9007199254740993)
  events := [{ attributes := KeyMap.empty.insert "k" (nestedMaps 32) }]
  links := [{ traceId := some ⟨[]⟩ }]

/-- The message is refused for the same reasons after its way through the binary
form. -/
theorem checkSpan_of_binary_refusedMessage :
    (fieldViolations "span" refusedMessage).length = 6 ∧
      refusedMessage.Carried ∧
        ∃ back, Wire.Span.ofBinary refusedMessage.toBinary = .ok back ∧
          ∀ path, checkSpan path back = checkSpan path refusedMessage := by
  have carried : refusedMessage.Carried := by
    refine ⟨rfl, ?_⟩
    unfold Wire.OnlyFinite
    decide +kernel
  exact ⟨by decide +kernel, carried, checkSpan_of_binary carried⟩

end Check

end TraceArchive
