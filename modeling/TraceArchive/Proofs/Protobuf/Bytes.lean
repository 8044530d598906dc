import TraceArchive.Proofs.Text.Utf8
import TraceArchive.Protobuf.Field

/-!
# Fields that were written are read again

A row of fields of numbers that a message knows is taken apart into the same
fields, whatever the room. The length in front of a payload has 64 bits, so this
holds of rows of fewer than `UInt64.size` bytes.
-/

namespace TraceArchive.Protobuf

/-! ## Numbers -/

theorem readVarintFrom_varintWithin
    {position bound : Nat} (whole : position + bound = 9) {value : Nat}
    (fits : value * Nat.pow 128 position < UInt64.size) (before : Nat)
    (rest : List UInt8) :
    readVarintFrom position before (varintWithin bound value ++ rest) =
      some (before + value * Nat.pow 128 position, rest) := by
  induction bound generalizing position value before with
  | zero =>
      obtain rfl : position = 9 := whole
      have small : value < 2 := by
        have isPower : Nat.pow 128 9 = 9223372036854775808 := rfl
        rw [isPower] at fits
        simp only [UInt64.size] at fits
        omega
      obtain rfl | rfl : value = 0 ∨ value = 1 := by omega
      · rfl
      · rfl
  | succ bound inductionHypothesis =>
      rw [varintWithin]
      split
      · rename_i small
        have isByte : (UInt8.ofNat value).toNat = value :=
          UInt8.toNat_ofNat_of_lt (by simp only [UInt8.size]; omega)
        have last : UInt8.ofNat value < 128 := by
          rw [UInt8.lt_iff_toNat_lt, isByte]
          exact small
        have early : ¬ (position = 9 ∧ 2 ≤ UInt8.ofNat value) := by omega
        rw [List.singleton_append, readVarintFrom]
        simp only [if_pos last, if_neg early, isByte,
          Nat.mod_eq_of_lt small]
      · have isByte :
            (UInt8.ofNat (value % 128 + 128)).toNat = value % 128 + 128 :=
          UInt8.toNat_ofNat_of_lt (by simp only [UInt8.size]; omega)
        have more : ¬ UInt8.ofNat (value % 128 + 128) < 128 := by
          rw [UInt8.lt_iff_toNat_lt, isByte]
          exact Nat.not_lt.mpr (Nat.le_add_left 128 _)
        have early : ¬ 9 ≤ position := by omega
        have whole :
            value % 128 * Nat.pow 128 position +
                value / 128 * Nat.pow 128 (position + 1) =
              value * Nat.pow 128 position := by
          have step : Nat.pow 128 (position + 1) = Nat.pow 128 position * 128 :=
            rfl
          have group :
              value / 128 * (Nat.pow 128 position * 128) =
                128 * (value / 128) * Nat.pow 128 position := by
            rw [← Nat.mul_assoc, Nat.mul_comm, ← Nat.mul_assoc]
          rw [step, group, ← Nat.add_mul, Nat.mod_add_div]
        have fitsRest :
            value / 128 * Nat.pow 128 (position + 1) < UInt64.size := by
          omega
        have readRest := inductionHypothesis (by omega) fitsRest
          (before + value % 128 * Nat.pow 128 position)
        have group : (value % 128 + 128) % 128 = value % 128 := by omega
        rw [List.cons_append, readVarintFrom]
        simp only [if_neg more, if_neg early, isByte, group]
        rw [readRest, Nat.add_assoc, whole]

theorem readVarint_encodeVarint
    {value : Nat} (fits : value < UInt64.size) (rest : List UInt8) :
    readVarint (encodeVarint value ++ rest) = some (value, rest) := by
  have isOne : value * Nat.pow 128 0 = value := Nat.mul_one value
  have read :=
    readVarintFrom_varintWithin (Nat.zero_add 9) (isOne.symm ▸ fits) 0 rest
  rw [isOne, Nat.zero_add] at read
  exact read

theorem varintWithin_ne_nil (bound value : Nat) :
    varintWithin bound value ≠ [] := by
  cases bound with
  | zero => exact List.cons_ne_nil _ _
  | succ bound =>
      rw [varintWithin]
      split
      · exact List.cons_ne_nil _ _
      · exact List.cons_ne_nil _ _

theorem readLittleEndian_littleEndian
    {count value : Nat} (fits : value < Nat.pow 256 count)
    (rest : List UInt8) :
    readLittleEndian count (littleEndian count value ++ rest) =
      some (value, rest) := by
  induction count generalizing value with
  | zero =>
      obtain rfl : value = 0 := Nat.lt_one_iff.mp fits
      rfl
  | succ count inductionHypothesis =>
      have step : Nat.pow 256 (count + 1) = Nat.pow 256 count * 256 := rfl
      have fitsRest : value / 256 < Nat.pow 256 count :=
        Nat.div_lt_of_lt_mul (by rw [Nat.mul_comm, ← step]; exact fits)
      have isByte : (UInt8.ofNat (value % 256)).toNat = value % 256 :=
        UInt8.toNat_ofNat_of_lt (by simp only [UInt8.size]; omega)
      rw [littleEndian, List.cons_append, readLittleEndian,
        inductionHypothesis fitsRest]
      simp only [isByte, Nat.mod_add_div]

/-! ## Payloads -/

theorem readBytes_append (bytes rest : List UInt8) :
    readBytes bytes.length (bytes ++ rest) = some (bytes, rest) := by
  have enough : bytes.length ≤ (bytes ++ rest).length := by
    rw [List.length_append]
    exact Nat.le_add_right _ _
  rw [readBytes, if_pos enough, List.take_left, List.drop_left]

theorem length_le_delimited (bytes : List UInt8) :
    bytes.length ≤ (Payload.delimited bytes).encode.length := by
  rw [Payload.encode, List.length_append]
  exact Nat.le_add_left _ _

theorem readPayload_encode
    {payload : Payload} (short : payload.encode.length < UInt64.size)
    (rest : List UInt8) :
    readPayload payload.wireType (payload.encode ++ rest) =
      some (payload, rest) := by
  cases payload with
  | varint value =>
      have read := readVarint_encodeVarint value.toNat_lt rest
      simp only [Payload.wireType, Payload.encode, readPayload, read,
        Option.map_some, UInt64.ofNat_toNat]
  | fixed64 value =>
      have read :=
        @readLittleEndian_littleEndian 8 value.toNat value.toNat_lt rest
      simp only [Payload.wireType, Payload.encode, readPayload, read,
        Option.map_some, UInt64.ofNat_toNat]
  | delimited bytes =>
      have fits : bytes.length < UInt64.size :=
        Nat.lt_of_le_of_lt (length_le_delimited bytes) short
      have read := readVarint_encodeVarint fits (bytes ++ rest)
      simp only [Payload.wireType, Payload.encode, readPayload, readDelimited,
        List.append_assoc, read, readBytes_append, Option.map_some]
  | fixed32 value =>
      have read :=
        @readLittleEndian_littleEndian 4 value.toNat value.toNat_lt rest
      simp only [Payload.wireType, Payload.encode, readPayload, read,
        Option.map_some, UInt32.ofNat_toNat]

/-! ## Fields -/

/-- Whether a message takes a field apart as it was written: the message knows
its number, which fits in a key, and only what has its length in front is an
entry of a map. -/
def Schema.knows (schema : Schema) (field : Field) : Bool :=
  decide (0 < field.number) && decide (field.number < Nat.pow 2 29) &&
    if schema.maps.contains field.number then field.payload.wireType == 2
    else schema.plain.contains field.number

theorem readKey_encode
    {field : Field} (positive : 0 < field.number)
    (small : field.number < Nat.pow 2 29) (rest : List UInt8) :
    readKey (encodeVarint (8 * field.number + field.payload.wireType) ++ rest) =
      some ⟨field.number, field.payload.wireType, rest⟩ := by
  have isPower : Nat.pow 2 29 = 536870912 := rfl
  have form : field.payload.wireType < 6 := by
    cases field.payload with
    | varint => exact Nat.zero_lt_succ 5
    | fixed64 => exact Nat.lt_add_left 4 (Nat.lt_succ_self 1)
    | delimited => exact Nat.lt_add_left 3 (Nat.lt_succ_self 2)
    | fixed32 => exact Nat.lt_succ_self 5
  have fits :
      8 * field.number + field.payload.wireType < UInt32.size ∧
        8 ≤ 8 * field.number + field.payload.wireType ∧
        (8 * field.number + field.payload.wireType) % 8 < 6 := by
    simp only [UInt32.size]
    omega
  have read :=
    readVarint_encodeVarint
      (Nat.lt_trans fits.1 (by decide : UInt32.size < UInt64.size)) rest
  have number :
      (8 * field.number + field.payload.wireType) / 8 = field.number := by
    omega
  have wireType :
      (8 * field.number + field.payload.wireType) % 8 =
        field.payload.wireType := by
    omega
  simp only [readKey, read, if_pos fits]
  rw [number, wireType]

theorem encodeFields_cons (field : Field) (fields : List Field) :
    encodeFields (field :: fields) = field.encode ++ encodeFields fields :=
  List.flatMap_cons

theorem encodeFields_append (fields others : List Field) :
    encodeFields (fields ++ others) =
      encodeFields fields ++ encodeFields others :=
  List.flatMap_append

theorem encodeFields_singleton (field : Field) :
    encodeFields [field] = field.encode := by
  rw [encodeFields_cons]
  exact List.append_nil _

theorem length_payload_le (field : Field) :
    field.payload.encode.length ≤ field.encode.length := by
  rw [Field.encode, List.length_append]
  exact Nat.le_add_left _ _

theorem length_encodeFields_pos (field : Field) (fields : List Field) :
    0 < (encodeFields (field :: fields)).length := by
  have key :=
    varintWithin_ne_nil 9 (8 * field.number + field.payload.wireType)
  rw [encodeFields_cons, Field.encode, List.length_append, List.length_append]
  have positive := List.length_pos_iff.mpr key
  rw [encodeVarint]
  omega

theorem readFieldsWithin_encodeFields
    {schema : Schema} {fields : List Field} (room : Nat)
    (known : ∀ field ∈ fields, schema.knows field = true)
    (short : (encodeFields fields).length < UInt64.size)
    {bound : Nat} (enough : (encodeFields fields).length ≤ bound) :
    readFieldsWithin schema room bound (encodeFields fields) =
      some fields := by
  induction fields generalizing bound with
  | nil => rw [encodeFields, List.flatMap_nil, readFieldsWithin]
  | cons field rest inductionHypothesis =>
      have positive := length_encodeFields_pos field rest
      obtain ⟨less, rfl⟩ : ∃ less, bound = less + 1 :=
        Nat.exists_eq_succ_of_ne_zero (by omega)
      rw [List.forall_mem_cons] at known
      obtain ⟨knownFirst, knownRest⟩ := known
      simp only [Schema.knows, Bool.and_eq_true, decide_eq_true_eq]
        at knownFirst
      obtain ⟨⟨isPositive, isSmall⟩, isKnown⟩ := knownFirst
      have whole := encodeFields_cons field rest
      have key :=
        readKey_encode isPositive isSmall
          (field.payload.encode ++ encodeFields rest)
      rw [whole, List.length_append] at short enough
      have shortPayload : field.payload.encode.length < UInt64.size :=
        Nat.lt_of_le_of_lt (length_payload_le field) (by omega)
      have payload := readPayload_encode shortPayload (encodeFields rest)
      have fieldPositive : 0 < field.encode.length := by
        have single := length_encodeFields_pos field []
        rwa [encodeFields_singleton] at single
      have readRest :=
        @inductionHypothesis knownRest (by omega) less (by omega)
      have bytes :
          encodeFields (field :: rest) =
            encodeVarint (8 * field.number + field.payload.wireType) ++
              (field.payload.encode ++ encodeFields rest) := by
        rw [whole, Field.encode, List.append_assoc]
      have contained :
          (schema.plain.contains field.number ||
            schema.maps.contains field.number) = true := by
        split at isKnown
        · rename_i inMaps
          rw [inMaps, Bool.or_true]
        · rw [isKnown, Bool.true_or]
      have wireType :
          (if schema.maps.contains field.number then 2
            else field.payload.wireType) = field.payload.wireType := by
        split at isKnown
        · rename_i inMaps
          rw [if_pos inMaps]
          exact (beq_iff_eq.mp isKnown).symm
        · rename_i notInMaps
          rw [if_neg notInMaps]
      obtain ⟨first, others, isBytes⟩ :=
        List.exists_cons_of_length_pos positive
      rw [isBytes, readFieldsWithin, ← isBytes, bytes, key]
      · simp only [contained, if_true, wireType, payload, readRest]
      · exact nofun

/-! ## Messages -/

theorem absorbAll_append
    {Message : Type} {absorb : Message → Field → Option Message}
    (message : Message) (fields others : List Field) :
    absorbAll absorb message (fields ++ others) =
      (absorbAll absorb message fields).bind
        (fun changed => absorbAll absorb changed others) := by
  induction fields generalizing message with
  | nil => rfl
  | cons field rest inductionHypothesis =>
      rw [List.cons_append, absorbAll, absorbAll]
      cases absorb message field with
      | none => rfl
      | some changed => exact inductionHypothesis changed

section Reads

variable {Message Content : Type} {schema : Schema}
  {absorb : Message → Field → Option Message} {message : Message}
  {fields rest : List Field} {number : Nat} {outcome : Option Message}

/-- Whether fields, put into a message one after another, have an outcome, if
their bytes are no more than can be counted. -/
structure Reads (schema : Schema)
    (absorb : Message → Field → Option Message) (message : Message)
    (fields : List Field) (outcome : Option Message) : Prop where
  known : ∀ field ∈ fields, schema.knows field = true
  absorbed :
    (encodeFields fields).length < UInt64.size →
      absorbAll absorb message fields = outcome

theorem Reads.merge
    (reads : Reads schema absorb message fields outcome) (room : Nat)
    (short : (encodeFields fields).length < UInt64.size) :
    merge schema absorb room message (encodeFields fields) = outcome := by
  have read :=
    readFieldsWithin_encodeFields room reads.known short (Nat.le_refl _)
  rw [Protobuf.merge, readFields, read]
  exact reads.absorbed short

theorem Reads.of_append_nil
    (reads : Reads schema absorb message (fields ++ []) outcome) :
    Reads schema absorb message fields outcome := by
  rwa [List.append_nil] at reads

theorem Reads.done : Reads schema absorb message [] (some message) :=
  ⟨List.forall_mem_nil _, fun _ => rfl⟩

theorem Reads.cons
    {field : Field} {changed : Message} (known : schema.knows field = true)
    (absorbs :
      field.payload.encode.length < UInt64.size →
        absorb message field = some changed)
    (readRest : Reads schema absorb changed rest outcome) :
    Reads schema absorb message (field :: rest) outcome where
  known := List.forall_mem_cons.mpr ⟨known, readRest.known⟩
  absorbed short := by
    rw [encodeFields_cons, List.length_append] at short
    have payload := length_payload_le field
    rw [absorbAll, absorbs (by omega)]
    exact readRest.absorbed (by omega)

theorem Reads.fail
    {field : Field} (known : schema.knows field = true)
    (fails :
      field.payload.encode.length < UInt64.size → absorb message field = none)
    (knownRest : ∀ field ∈ rest, schema.knows field = true) :
    Reads schema absorb message (field :: rest) none where
  known := List.forall_mem_cons.mpr ⟨known, knownRest⟩
  absorbed short := by
    rw [encodeFields_cons, List.length_append] at short
    have payload := length_payload_le field
    rw [absorbAll, fails (by omega)]

theorem Reads.single
    {field : Field} (known : schema.knows field = true)
    (absorbs :
      field.payload.encode.length < UInt64.size →
        absorb message field = outcome) :
    Reads schema absorb message [field] outcome := by
  cases outcome with
  | none => exact .fail known absorbs (List.forall_mem_nil _)
  | some changed => exact .cons known absorbs .done

/-- Values that are put into a message one after another. The message is read
if all of them fit into it. -/
theorem Reads.itemsWithin
    {values : List Content} {form : Content → Payload}
    (fits : Content → Prop) [DecidablePred fits]
    (add : List Content → Message) (starts : add [] = message)
    (known : ∀ value, schema.knows ⟨number, form value⟩ = true)
    (absorbs :
      ∀ value ∈ values, ∀ before,
        (form value).encode.length < UInt64.size →
          absorb (add before) ⟨number, form value⟩ =
            if fits value then some (add (before ++ [value])) else none)
    (readRest : Reads schema absorb (add values) rest outcome) :
    Reads schema absorb message
      (values.map (fun value => ⟨number, form value⟩) ++ rest)
      (if ∀ value ∈ values, fits value then outcome else none) := by
  subst starts
  induction values generalizing add with
  | nil => simpa using readRest
  | cons value others inductionHypothesis =>
      rw [List.forall_mem_cons] at absorbs
      obtain ⟨absorbsFirst, absorbsOthers⟩ := absorbs
      have readOthers :=
        @inductionHypothesis (fun before => add (value :: before))
          (fun other member before =>
            absorbsOthers other member (value :: before)) readRest
      by_cases first : fits value
      · have absorbed := absorbsFirst []
        simp only [if_pos first, List.nil_append] at absorbed
        simp only [List.forall_mem_cons, first, true_and]
        exact .cons (known value) absorbed readOthers
      · have failed := absorbsFirst []
        simp only [if_neg first] at failed
        simp only [List.forall_mem_cons, first, false_and, if_false]
        exact .fail (known value) failed readOthers.known

/-- Values of which each is put into a message. -/
theorem Reads.items
    {values : List Content} {form : Content → Payload}
    (add : List Content → Message) (starts : add [] = message)
    (known : ∀ value, schema.knows ⟨number, form value⟩ = true)
    (absorbs :
      ∀ value ∈ values, ∀ before,
        (form value).encode.length < UInt64.size →
          absorb (add before) ⟨number, form value⟩ =
            some (add (before ++ [value])))
    (readRest : Reads schema absorb (add values) rest outcome) :
    Reads schema absorb message
      (values.map (fun value => ⟨number, form value⟩) ++ rest) outcome := by
  have reads :=
    Reads.itemsWithin (fun _ => True) add starts known
      (fun value member before short => by
        rw [if_pos trivial]
        exact absorbs value member before short) readRest
  rwa [if_pos fun _ _ => trivial] at reads

end Reads

/-! ## Payloads as values -/

namespace Payload

theorem text?_ofText (text : String) : (ofText text).text? = some text :=
  Text.Utf8.decode?_encode text

theorem uint32?_ofHalfWord (value : UInt32) :
    (ofHalfWord value).uint32? = some value := by
  have fits : value.toNat < UInt64.size :=
    Nat.lt_trans value.toNat_lt (by decide : UInt32.size < UInt64.size)
  rw [ofHalfWord, uint32?, UInt64.toNat_ofNat_of_lt' fits,
    UInt32.ofNat_toNat]

/-- The number in the bits of a payload is the number that was written, up to
multiples of the number of words. -/
theorem toNat_ofInt (value : Int) :
    ((UInt64.ofNat (value % UInt64.size).toNat).toNat : Int) =
      value % UInt64.size := by
  have positive : (0 : Int) < UInt64.size := by decide
  have notNegative := Int.emod_nonneg value (Int.ne_of_gt positive)
  have below := Int.emod_lt_of_pos value positive
  rw [UInt64.toNat_ofNat_of_lt' (by omega), Int.toNat_of_nonneg notNegative]

theorem int64?_ofInt
    {value : Int} (least : -(UInt64.size / 2 : Nat) ≤ value)
    (most : value < (UInt64.size / 2 : Nat)) :
    (ofInt value).int64? = some value := by
  rw [ofInt, int64?, toNat_ofInt, Int.emod_bmod]
  rw [Int.bmod_eq_of_le least (by omega)]

theorem int32?_ofInt
    {value : Int} (least : -(UInt32.size / 2 : Nat) ≤ value)
    (most : value < (UInt32.size / 2 : Nat)) :
    (ofInt value).int32? = some value := by
  rw [ofInt, int32?, toNat_ofInt, Int.bmod_def]
  simp only [UInt32.size, UInt64.size] at *
  split
  · rw [Option.some_inj]
    omega
  · rw [Option.some_inj]
    omega

end Payload

end TraceArchive.Protobuf
