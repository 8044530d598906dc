import TraceArchive.Proofs.Text.Utf8
import TraceArchive.Snapshot.Compression

/-!
# Which texts survive compression

The only sequence of a written block is read as its literals, if these are not
more than declared, and the declared length has four bytes. So just the texts
below four gibibytes come back: `decompress_compress_iff`. Others cannot be read:
`decompress_compress_of_long`.
-/

namespace TraceArchive.Snapshot

/-! ## Lengths -/

theorem extendLength_replicate (start count : Nat) (rest : List UInt8) :
    extendLength start (List.replicate count 255 ++ rest) =
      extendLength (start + 255 * count) rest := by
  induction count generalizing start with
  | zero => rfl
  | succ count inductionHypothesis =>
      rw [List.replicate_succ, List.cons_append, extendLength, if_pos rfl,
        inductionHypothesis]
      congr 1
      omega

theorem extendLength_lengthBytes (start length : Nat) (rest : List UInt8) :
    extendLength start (lengthBytes length ++ rest) =
      .ok (start + length, rest) := by
  have isLast : (UInt8.ofNat (length % 255)).toNat = length % 255 :=
    Text.Utf8.toNat_ofNat_of_lt _ (by omega)
  have below : UInt8.ofNat (length % 255) ≠ 255 := by
    intro isFull
    rw [isFull] at isLast
    have less : length % 255 < 255 := Nat.mod_lt _ (by decide)
    exact absurd isLast.symm (Nat.ne_of_lt less)
  have whole :
      start + 255 * (length / 255) + length % 255 = start + length := by
    omega
  rw [lengthBytes, List.append_assoc, extendLength_replicate,
    List.singleton_append, extendLength, if_neg below, isLast, whole]

/-! ## The block of a text -/

/-- A sequence that ends after its literals. -/
theorem readSequences_literals
    {limit steps : Nat} {token : UInt8} {bytes text : List UInt8}
    (isLength :
      readLength (token.toNat / 16) bytes = .ok (text.length, text))
    (fits : text.length ≤ limit) :
    readSequences limit (steps + 1) [] (token :: bytes) =
      .ok text.reverse := by
  have notShort : ¬ text.length < text.length := Nat.lt_irrefl _
  have notLong : ¬ limit < ([] : List UInt8).length + text.length := by
    rw [List.length_nil]
    omega
  simp only [readSequences, isLength, if_neg notShort, if_neg notLong,
    List.take_length, List.drop_length, List.reverseAux_eq, List.append_nil]

/-- A sequence whose literals are too many. -/
theorem readSequences_literals_of_long
    {limit steps : Nat} {token : UInt8} {bytes text : List UInt8}
    (isLength :
      readLength (token.toNat / 16) bytes = .ok (text.length, text))
    (long : limit < text.length) :
    readSequences limit (steps + 1) [] (token :: bytes) =
      .error .tooLong := by
  have notShort : ¬ text.length < text.length := Nat.lt_irrefl _
  have tooLong : limit < ([] : List UInt8).length + text.length := by
    rw [List.length_nil]
    omega
  simp only [readSequences, isLength, if_neg notShort, if_pos tooLong]

/-- A block begins with a token that tells the length of its literals. -/
theorem exists_literalBlock (text : List UInt8) :
    ∃ token bytes, literalBlock text = token :: bytes ∧
      readLength (token.toNat / 16) bytes = .ok (text.length, text) := by
  unfold literalBlock
  dsimp only
  split
  · rename_i short
    have less : text.length < 15 := short
    refine ⟨_, _, rfl, ?_⟩
    rw [Text.Utf8.toNat_ofNat_of_lt _ (by omega),
      Nat.mul_div_cancel_left _ (by decide), readLength,
      if_neg (Nat.ne_of_lt short)]
  · rename_i long
    have whole : openLength + (text.length - openLength) = text.length :=
      Nat.add_sub_cancel' (Nat.le_of_not_lt long)
    have isOpen :
        (UInt8.ofNat (16 * openLength)).toNat / 16 = openLength := by
      decide
    refine ⟨_, _, rfl, ?_⟩
    rw [isOpen, readLength, if_pos rfl, extendLength_lengthBytes, whole]

theorem readBlock_literalBlock
    {declared : Nat} {text : List UInt8} (fits : text.length ≤ declared) :
    readBlock declared (literalBlock text) = .ok text := by
  obtain ⟨token, bytes, isBlock, isLength⟩ := exists_literalBlock text
  rw [isBlock, readBlock, List.length_cons,
    readSequences_literals isLength fits]
  exact congrArg Except.ok (List.reverse_reverse text)

theorem readBlock_literalBlock_of_long
    {declared : Nat} {text : List UInt8} (long : declared < text.length) :
    readBlock declared (literalBlock text) = .error .tooLong := by
  obtain ⟨token, bytes, isBlock, isLength⟩ := exists_literalBlock text
  rw [isBlock, readBlock, List.length_cons,
    readSequences_literals_of_long isLength long]

/-! ## The declared length -/

theorem decompress_fourBytes (number : Nat) (block : List UInt8) :
    decompress (fourBytes number ++ block) =
      readBlock (number % Nat.pow 2 32) block := by
  have isByte : ∀ value : Nat,
      (UInt8.ofNat (value % 256)).toNat = value % 256 := fun value =>
    Text.Utf8.toNat_ofNat_of_lt _ (Nat.mod_lt _ (by decide))
  have whole :
      number % 256 + 256 * (number / 256 % 256 +
          256 * (number / 65536 % 256 + 256 * (number / 16777216 % 256))) =
        number % 4294967296 := by
    omega
  simp only [fourBytes, List.cons_append, List.nil_append, decompress, isByte,
    whole]

/-- A text of four gibibytes is longer than any length that can be declared. -/
theorem decompress_compress_of_long
    {text : List UInt8} (long : Nat.pow 2 32 ≤ text.length) :
    decompress (compress text) = .error .tooLong := by
  have small : text.length % Nat.pow 2 32 < Nat.pow 2 32 :=
    Nat.mod_lt _ (by decide)
  rw [compress, decompress_fourBytes]
  exact readBlock_literalBlock_of_long (Nat.lt_of_lt_of_le small long)

/-- A text comes back if and only if it has less than four gibibytes. -/
theorem decompress_compress_iff {text : List UInt8} :
    decompress (compress text) = .ok text ↔ text.length < Nat.pow 2 32 := by
  constructor
  · intro read
    refine Nat.lt_of_not_le fun long => ?_
    rw [decompress_compress_of_long long] at read
    cases read
  · intro short
    rw [compress, decompress_fourBytes, Nat.mod_eq_of_lt short]
    exact readBlock_literalBlock (Nat.le_refl _)

theorem length_le_compress (text : List UInt8) :
    text.length ≤ (compress text).length := by
  unfold compress literalBlock
  dsimp only
  split
  · simp only [List.length_append, List.length_cons]
    omega
  · simp only [List.length_append, List.length_cons]
    omega

theorem length_compress_le (text : List UInt8) :
    (compress text).length ≤ 2 * text.length + 6 := by
  have ofLength : (lengthBytes (text.length - openLength)).length ≤
      text.length + 1 := by
    rw [lengthBytes, List.length_append, List.length_replicate,
      List.length_singleton]
    omega
  unfold compress literalBlock fourBytes
  dsimp only
  split
  · simp only [List.length_append, List.length_cons, List.length_nil]
    omega
  · simp only [List.length_append, List.length_cons, List.length_nil]
    omega

end TraceArchive.Snapshot
