/-!
# Compressed blocks

A compressed text is its length in four bytes, the lowest first, and an LZ4
block. A block is a row of sequences: a token, literal bytes, and a match, which
repeats bytes that came before. The last sequence ends after its literals. Texts
are written as literals only; every block can be read.
-/

namespace TraceArchive.Snapshot

/-- Why a compressed text cannot be read. -/
inductive BlockFault where
  /-- The block ends within a sequence. -/
  | cutShort
  /-- A match begins before the text. -/
  | matchBeforeStart
  /-- The text would be longer than its declared length. -/
  | tooLong
deriving DecidableEq, Repr

/-! ## Reading -/

/-- The length of the shortest match. -/
def shortestMatch : Nat := 4

/-- The value of half a token that announces further bytes of a length. -/
def openLength : Nat := 15

/-- Adds bytes to a length up to and with the first below 255; gives the length
and the bytes after it. -/
def extendLength (length : Nat) :
    List UInt8 → Except BlockFault (Nat × List UInt8)
  | [] => .error .cutShort
  | byte :: rest =>
      if byte = 255 then extendLength (length + 255) rest
      else .ok (length + byte.toNat, rest)

/-- The length that half a token begins. -/
def readLength (half : Nat) (bytes : List UInt8) :
    Except BlockFault (Nat × List UInt8) :=
  if half = openLength then extendLength openLength bytes
  else .ok (half, bytes)

/-- Repeats bytes of a text, which is given from its end, starting a distance
before the end. Bytes that were just repeated may be repeated again. -/
def repeatBytes (distance : Nat) : Nat → List UInt8 → List UInt8
  | 0, written => written
  | count + 1, written =>
      repeatBytes distance count
        ((written[distance - 1]?).getD 0 :: written)

/-- Reads the match of a sequence into a text that is given from its end. -/
def readMatch (limit : Nat) (half : Nat) (written : List UInt8) :
    List UInt8 → Except BlockFault (List UInt8 × List UInt8)
  | low :: high :: rest =>
      match readLength half rest with
      | .error fault => .error fault
      | .ok (length, rest) =>
          let distance := low.toNat + 256 * high.toNat
          let count := length + shortestMatch
          if limit < written.length + count then .error .tooLong
          else if distance = 0 ∨ written.length < distance then
            .error .matchBeforeStart
          else .ok (repeatBytes distance count written, rest)
  | _ => .error .cutShort

/-- Reads sequences into a text that is given from its end. Every sequence has
a byte at least, so that as many steps as bytes are enough. -/
def readSequences (limit : Nat) :
    Nat → List UInt8 → List UInt8 → Except BlockFault (List UInt8)
  | _, _, [] => .error .cutShort
  | 0, _, _ => .error .cutShort
  | steps + 1, written, token :: bytes =>
      match readLength (token.toNat / 16) bytes with
      | .error fault => .error fault
      | .ok (length, bytes) =>
          if bytes.length < length then .error .cutShort
          else if limit < written.length + length then .error .tooLong
          else
            let written := (bytes.take length).reverseAux written
            match bytes.drop length with
            | [] => .ok written
            | rest =>
                match readMatch limit (token.toNat % 16) written rest with
                | .error fault => .error fault
                | .ok (written, rest) =>
                    readSequences limit steps written rest

/-- The text of a block whose length is declared; it may be shorter. -/
def readBlock (declared : Nat) (block : List UInt8) :
    Except BlockFault (List UInt8) :=
  match readSequences declared block.length [] block with
  | .error fault => .error fault
  | .ok written => .ok written.reverse

/-- The text that a compressed text stands for. -/
def decompress : List UInt8 → Except BlockFault (List UInt8)
  | first :: second :: third :: fourth :: block =>
      readBlock
        (first.toNat + 256 * (second.toNat + 256 * (third.toNat +
          256 * fourth.toNat)))
        block
  | _ => .error .cutShort

/-! ## Writing -/

/-- The bytes of a length beyond what its half token holds. -/
def lengthBytes (length : Nat) : List UInt8 :=
  List.replicate (length / 255) 255 ++ [UInt8.ofNat (length % 255)]

/-- The block whose only sequence holds a text as literals. -/
def literalBlock (text : List UInt8) : List UInt8 :=
  let length := text.length
  if length < openLength then UInt8.ofNat (16 * length) :: text
  else
    UInt8.ofNat (16 * openLength) ::
      (lengthBytes (length - openLength) ++ text)

/-- Four bytes of a number, the lowest first. -/
def fourBytes (number : Nat) : List UInt8 :=
  [UInt8.ofNat (number % 256), UInt8.ofNat (number / 256 % 256),
    UInt8.ofNat (number / 65536 % 256), UInt8.ofNat (number / 16777216 % 256)]

/-- A compressed text. -/
def compress (text : List UInt8) : List UInt8 :=
  fourBytes text.length ++ literalBlock text

end TraceArchive.Snapshot
