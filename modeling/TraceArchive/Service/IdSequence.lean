import TraceArchive.Identifier

/-!
# Identifiers for new traces

A trace that comes without an identifier gets one of sixteen bytes: a lead that
belongs to one source of identifiers, and the count of the identifiers that this
source gave before. The last count is never given, so that the count does not
come round again.
-/

namespace TraceArchive

/-- Why no identifier could be allocated. -/
inductive AllocationError where
  /-- All counts were given. -/
  | exhausted
  /-- The source cannot be reached. -/
  | unavailable (reason : String)
deriving DecidableEq, Repr

/-- The wording of each error. -/
def AllocationError.message : AllocationError → String
  | .exhausted => "identifier sequence exhausted"
  | .unavailable reason => "identifier source unavailable: " ++ reason

/-- A source of identifiers. -/
structure IdSequence where
  /-- The first half of every identifier. -/
  lead : UInt64
  /-- The count of the next identifier. -/
  next : UInt64
deriving DecidableEq, Repr

namespace IdSequence

/-- The bytes of a number from the highest to the lowest, as many as asked
for. -/
def bigEndian : Nat → Nat → List UInt8
  | 0, _ => []
  | width + 1, number =>
      UInt8.ofNat (number / Nat.pow 256 width) :: bigEndian width number

/-- The number that bytes from the highest to the lowest stand for. -/
def ofBigEndian (bytes : List UInt8) : Nat :=
  bytes.foldl (fun number byte => 256 * number + byte.toNat) 0

/-- A source that has given no identifier yet. -/
def start (lead : UInt64) : IdSequence :=
  ⟨lead, 0⟩

/-- The lead that sixteen hexadecimal digits stand for, zero for any other
text. -/
def leadOfHex (digits : String) : UInt64 :=
  match Identifier.ofHex digits with
  | .error _ => 0
  | .ok identifier =>
      if identifier.bytes.length = 8 then
        UInt64.ofNat (ofBigEndian identifier.bytes)
      else 0

/-- The identifier with a lead and a count. -/
def identifier (lead count : UInt64) : Identifier :=
  ⟨bigEndian 8 lead.toNat ++ bigEndian 8 count.toNat⟩

/-- Gives the next identifier. -/
def allocate (sequence : IdSequence) :
    IdSequence × Except AllocationError Identifier :=
  if sequence.next.toNat + 1 < UInt64.size then
    ({ sequence with next := sequence.next + 1 },
      .ok (identifier sequence.lead sequence.next))
  else (sequence, .error .exhausted)

/-- Gives identifiers one after another. -/
def allocateMany : Nat → IdSequence → List (Except AllocationError Identifier)
  | 0, _ => []
  | count + 1, sequence =>
      let (rest, given) := sequence.allocate
      given :: allocateMany count rest

end IdSequence

end TraceArchive
