import TraceArchive.Proofs.Check.Binary
import TraceArchive.Proofs.Service.ReadBack

/-!
# Stored traces in binary form

The binary body of a stored trace is read again if and only if what is known of
the trace is portable: a request in a leap second, a duration beyond the range
of that form and an assessment without room are written all the same, but such a
body is refused. What is read is accepted as what is known of the trace, with
the doubles of its assessments. The main statement is `portable_of_run`, and
`unreadable_longMessage` shows a trace whose body is refused.
-/

namespace TraceArchive

open Wire.Format (protobuf)

/-- Whether the information in a message is accepted as what is known of a trace,
with the doubles of its assessments. -/
def Wire.Trace.RestoresInfo (message : Wire.Trace)
    (trace : TraceArchive.Trace) : Prop :=
  ∃ info draft, message.info = some info ∧ Check.checkInfo info = .ok draft ∧
    draft.traceId = some trace.id ∧
      draft.toInfo trace.id = trace.info.asDoubles

namespace Trace.Restorable

variable {settings : Settings} {trace : Trace}

theorem encode_protobuf
    (restorable : trace.Restorable) (wellFormed : trace.WellFormed settings) :
    ∃ messages, (∀ message ∈ messages, Wire.Span.Portable message) ∧
      protobuf.encode trace =
        .ok (protobuf.encodeMessage
          { info := some (Wire.TraceInfo.ofInfo trace.info)
            spans := some messages }) := by
  obtain ⟨messages, written⟩ :=
    Wire.Span.ofSpans_of_fit fun span member =>
      (wellFormed.sound span member).fit
  refine ⟨messages, ?_, ?_⟩
  · intro message member
    obtain ⟨original, isOriginal, writtenSpan⟩ :=
      exists_of_forall₂ (Wire.Span.forall₂_of_ofSpans written) member
    exact Wire.Span.portable_of_ofSpan writtenSpan
      (restorable.proper original isOriginal)
  · simp only [Wire.Format.encode, Wire.Trace.ofTrace, written]

/-- The binary body of a trace that can be restored is read if and only if what
is known of the trace is portable, and then that is restored. -/
theorem readBack_protobuf
    (restorable : trace.Restorable) (wellFormed : trace.WellFormed settings) :
    ∃ body, protobuf.encode trace = .ok body ∧
      (body.length < UInt64.size →
        ((∃ message, protobuf.decode body = .ok message) ↔
          trace.info.Portable) ∧
        ∀ message, protobuf.decode body = .ok message →
          message.RestoresInfo trace) := by
  obtain ⟨messages, portableSpans, encoded⟩ :=
    restorable.encode_protobuf wellFormed
  refine ⟨_, encoded, fun short => ?_⟩
  have shortInfo :=
    Nat.lt_of_le_of_lt (Protobuf.Trace.length_encode_info_le _ _) short
  have whole :=
    Wire.Format.decode_encodeMessage_spans portableSpans short
  have portable :
      ∀ message,
        protobuf.decode
            (protobuf.encodeMessage
              { info := some (Wire.TraceInfo.ofInfo trace.info)
                spans := some messages }) = .ok message →
          trace.info.Portable := by
    intro message decoded
    rw [whole] at decoded
    obtain ⟨before, decodedInfo, -⟩ := Wire.exists_of_map_eq_ok decoded
    exact Wire.Format.portable_of_decode restorable.assessments shortInfo
      decodedInfo
  have restored : trace.info.Portable → _ := fun isPortable =>
    Wire.Format.decode_encodeMessage_info restorable.assessments shortInfo
      isPortable
  refine ⟨⟨fun ⟨message, decoded⟩ => portable message decoded, ?_⟩, ?_⟩
  · intro isPortable
    rw [whole, restored isPortable]
    exact ⟨_, rfl⟩
  · intro message decoded
    have isPortable := portable message decoded
    rw [whole, restored isPortable] at decoded
    cases decoded
    have isKey : IsKey trace.info.asDoubles.traceId := wellFormed.key
    obtain ⟨draft, checked, isId, same⟩ :=
      Check.checkInfo_ofInfo isKey restorable.canonical
    exact ⟨_, draft, rfl, checked, isId, same⟩

end Trace.Restorable

namespace Traffic

variable {Client : Type} [DecidableEq Client]

/-- Whatever requests with messages in either format are made under whatever
settings, in whatever order their calls are answered and whichever of them fail:
every stored trace has a binary body. If its bytes can be counted in 64 bits, the
body is read if and only if the request of the trace was not made in a leap
second, its duration has less than two to the power 63 seconds, and none of its
assessments nests more than 98 binary messages; and what is read is then accepted
as what is known of the trace, where the numbers of assessments stand as
doubles. -/
theorem portable_of_run
    (settings : Settings) (requests : Client → Request) (ids : IdSequence)
    (turns : List (Turn Client))
    (received : ∀ client, (requests client).Received) :
    ∀ id record,
      ((start settings requests (World.initial ids)).run
          turns).world.store.get? id = some record →
        ∃ body, protobuf.encode record.trace = .ok body ∧
          (body.length < UInt64.size →
            ((∃ message, protobuf.decode body = .ok message) ↔
              record.trace.info.Portable) ∧
            ∀ message, protobuf.decode body = .ok message →
              message.RestoresInfo record.trace) := by
  intro id record stored
  obtain ⟨-, wellFormed, restorable⟩ :=
    restorable_of_run settings requests ids turns received id record stored
  exact restorable.readBack_protobuf wellFormed

/-- A message with one span and the duration of the execution. -/
def timedMessage (duration : Duration) : Wire.Trace :=
  { zeroMessage with
    info := zeroMessage.info.map fun info =>
      { info with executionDuration := some duration } }

theorem received_timedMessage (duration : Duration) :
    (Request.submit none (timedMessage duration)).Received := by
  have legible : (timedMessage duration).Legible := by
    constructor
    · rintro _ ⟨⟩
      exact
        ⟨List.forall_mem_nil _, List.forall_mem_nil _, List.forall_mem_nil _⟩
    · exact legible_zeroMessage.spans
  exact ⟨.json, _, Wire.Format.decode_encodeMessage legible⟩

/-- The world after that message was submitted. -/
def timedWorld (duration : Duration) : World :=
  ((start {} (fun _ : Unit => .submit none (timedMessage duration))
      (World.initial (.start 0))).run
    (List.replicate 6 { client := () })).world

/-- The binary body of the trace that was submitted. -/
def timedBody? (duration : Duration) : Option (List UInt8) :=
  match (timedWorld duration).store.get? "01" with
  | none => none
  | some record =>
      match protobuf.encode record.trace with
      | .error _ => none
      | .ok body => some body

theorem encoded_of_timedBody?
    {duration : Duration} {body : List UInt8}
    (isBody : timedBody? duration = some body) :
    ∃ record, (timedWorld duration).store.get? "01" = some record ∧
      protobuf.encode record.trace = .ok body := by
  unfold timedBody? at isBody
  split at isBody
  · cases isBody
  · rename_i record isRecord
    split at isBody
    · cases isBody
    · rename_i encoded
      cases isBody
      exact ⟨record, isRecord, encoded⟩

/-- A trace of a second and a half is read and restored. -/
theorem portable_timedMessage :
    ∃ record,
      (timedWorld ⟨1, 500000000, by decide⟩).store.get? "01" = some record ∧
        ∃ body, protobuf.encode record.trace = .ok body ∧
          ∃ message, protobuf.decode body = .ok message ∧
            message.RestoresInfo record.trace := by
  have isReadable :
      (timedBody? ⟨1, 500000000, by decide⟩).any (fun body =>
        decide (body.length < UInt64.size) &&
          match protobuf.decode body with
          | .ok _ => true
          | .error _ => false) = true := by
    decide +kernel
  obtain ⟨body, isBody, read⟩ := (Option.any_eq_true _ _).mp isReadable
  rw [Bool.and_eq_true, decide_eq_true_eq] at read
  obtain ⟨short, isOk⟩ := read
  obtain ⟨record, isRecord, encoded⟩ := encoded_of_timedBody? isBody
  split at isOk
  · rename_i message decoded
    obtain ⟨again, encodedAgain, restored⟩ :=
      portable_of_run {} _ (.start 0) _
        (fun _ : Unit => received_timedMessage _) "01" record isRecord
    cases encoded.symm.trans encodedAgain
    exact
      ⟨record, isRecord, body, encoded, message, decoded,
        (restored short).2 message decoded⟩
  · cases isOk

/-- The body of a trace of two to the power 63 seconds is refused, though the
trace was accepted. -/
theorem unreadable_longMessage :
    (Request.submit none
        (timedMessage ⟨9223372036854775808, 0, by decide⟩)).Received ∧
      ∃ record,
        (timedWorld ⟨9223372036854775808, 0, by decide⟩).store.get? "01" =
            some record ∧
          ∃ body, protobuf.encode record.trace = .ok body ∧
            body.length < UInt64.size ∧
              protobuf.decode body = .error .invalidDuration := by
  refine ⟨received_timedMessage _, ?_⟩
  have isRefused :
      (timedBody? ⟨9223372036854775808, 0, by decide⟩).any (fun body =>
        decide (body.length < UInt64.size) &&
          match protobuf.decode body with
          | .error .invalidDuration => true
          | _ => false) = true := by
    decide +kernel
  obtain ⟨body, isBody, read⟩ := (Option.any_eq_true _ _).mp isRefused
  rw [Bool.and_eq_true, decide_eq_true_eq] at read
  obtain ⟨short, isError⟩ := read
  obtain ⟨record, isRecord, encoded⟩ := encoded_of_timedBody? isBody
  refine ⟨record, isRecord, body, encoded, short, ?_⟩
  split at isError
  · assumption
  · cases isError

end Traffic

end TraceArchive
