import TraceArchive.Attribute.Codec
import TraceArchive.Proofs.KeyMap

/-!
# Values with a wire form

A value has a wire form when it has not too many levels and all its numbers are
finite. Everything that was read from the wire is such a value, so it can be
written again.
-/

namespace TraceArchive

namespace AttributeValue

mutual

/-- Whether all numbers in a value are finite. -/
def onlyFinite : AttributeValue → Bool
  | .number value => value.isFinite
  | .list items => onlyFiniteItems items
  | .map entries => onlyFiniteEntries entries
  | _ => true

/-- Whether all numbers in values are finite. -/
def onlyFiniteItems : List AttributeValue → Bool
  | [] => true
  | item :: rest => onlyFinite item && onlyFiniteItems rest

/-- Whether all numbers in the values of entries are finite. -/
def onlyFiniteEntries : List (String × AttributeValue) → Bool
  | [] => true
  | (_, value) :: rest => onlyFinite value && onlyFiniteEntries rest

end

/-! ## Values that were read -/

mutual

theorem fits_of_decodeAt
    (path : String) :
    ∀ (room : Nat) (wire : Json) (value : AttributeValue),
      decodeAt path room wire = .ok value →
        value.depth ≤ room ∧ value.onlyFinite = true
  | 0, _, _, decoded => by simp [decodeAt] at decoded
  | room + 1, .null, value, decoded => by
      cases decoded
      simp [depth, onlyFinite]
  | room + 1, .boolean held, value, decoded => by
      cases decoded
      simp [depth, onlyFinite]
  | room + 1, .number wire, value, decoded => by
      simp only [decodeAt] at decoded
      split at decoded
      · rename_i finite
        cases decoded
        simp [depth, onlyFinite, finite]
      · cases decoded
  | room + 1, .string held, value, decoded => by
      cases decoded
      simp [depth, onlyFinite]
  | room + 1, .list items, value, decoded => by
      simp only [decodeAt] at decoded
      split at decoded
      · cases decoded
      · rename_i values decodedItems
        cases decoded
        obtain ⟨shallow, finite⟩ :=
          fits_of_decodeItems path 0 room items values decodedItems
        refine ⟨?_, finite⟩
        rw [depth]
        omega
  | room + 1, .object entries, value, decoded => by
      simp only [decodeAt] at decoded
      split at decoded
      · cases decoded
      · rename_i values decodedEntries
        cases decoded
        obtain ⟨shallow, finite⟩ :=
          fits_of_decodeEntries path room entries values decodedEntries
        refine ⟨?_, finite⟩
        rw [depth]
        omega

theorem fits_of_decodeItems
    (path : String) :
    ∀ (index room : Nat) (wires : List Json) (values : List AttributeValue),
      decodeItems path index room wires = .ok values →
        depthOfItems values ≤ room ∧ onlyFiniteItems values = true
  | _, _, [], values, decoded => by
      cases decoded
      simp [depthOfItems, onlyFiniteItems]
  | index, room, wire :: rest, values, decoded => by
      simp only [decodeItems] at decoded
      split at decoded
      · cases decoded
      · rename_i value decodedFirst
        split at decoded
        · cases decoded
        · rename_i others decodedRest
          cases decoded
          obtain ⟨shallowFirst, finiteFirst⟩ :=
            fits_of_decodeAt (itemPath path index) room wire value decodedFirst
          obtain ⟨shallowRest, finiteRest⟩ :=
            fits_of_decodeItems path (index + 1) room rest others decodedRest
          simp only [depthOfItems, onlyFiniteItems, finiteFirst, finiteRest]
          exact ⟨Nat.max_le.mpr ⟨shallowFirst, shallowRest⟩, rfl⟩

theorem fits_of_decodeEntries
    (path : String) :
    ∀ (room : Nat) (wires : List (String × Json))
      (values : List (String × AttributeValue)),
      decodeEntries path room wires = .ok values →
        depthOfEntries values ≤ room ∧ onlyFiniteEntries values = true
  | _, [], values, decoded => by
      cases decoded
      simp [depthOfEntries, onlyFiniteEntries]
  | room, (key, wire) :: rest, values, decoded => by
      simp only [decodeEntries] at decoded
      split at decoded
      · cases decoded
      · rename_i value decodedFirst
        split at decoded
        · cases decoded
        · rename_i others decodedRest
          cases decoded
          obtain ⟨shallowFirst, finiteFirst⟩ :=
            fits_of_decodeAt (keyPath path key) room wire value decodedFirst
          obtain ⟨shallowRest, finiteRest⟩ :=
            fits_of_decodeEntries path room rest others decodedRest
          simp only [depthOfEntries, onlyFiniteEntries, finiteFirst,
            finiteRest]
          exact ⟨Nat.max_le.mpr ⟨shallowFirst, shallowRest⟩, rfl⟩

end

/-! ## Values that can be written -/

theorem encodeNumber?_of_finite
    {value : Double} (finite : value.isFinite = true) :
    ∃ wire, encodeNumber? value = some wire := by
  unfold encodeNumber?
  rw [if_pos finite]
  dsimp only
  split
  · exact ⟨_, rfl⟩
  · exact ⟨_, rfl⟩

mutual

theorem encodeAt_of_fits
    (path : String) :
    ∀ (room : Nat) (value : AttributeValue),
      value.depth ≤ room → value.onlyFinite = true →
        ∃ wire, encodeAt path room value = .ok wire
  | 0, value, shallow, _ => by
      cases value <;> simp [depth] at shallow
  | _ + 1, .null, _, _ => ⟨_, rfl⟩
  | _ + 1, .boolean held, _, _ => ⟨_, rfl⟩
  | _ + 1, .number value, _, finite => by
      obtain ⟨wire, isWire⟩ := encodeNumber?_of_finite finite
      exact ⟨.number wire, by simp only [encodeAt, isWire]⟩
  | _ + 1, .string held, _, _ => ⟨_, rfl⟩
  | room + 1, .list items, shallow, finite => by
      have shallowItems : depthOfItems items ≤ room := by
        rw [depth] at shallow
        omega
      obtain ⟨wires, encoded⟩ :=
        encodeItems_of_fits path 0 room items shallowItems finite
      exact ⟨.list wires, by simp only [encodeAt, encoded]⟩
  | room + 1, .map entries, shallow, finite => by
      have shallowEntries : depthOfEntries entries ≤ room := by
        rw [depth] at shallow
        omega
      obtain ⟨wires, encoded⟩ :=
        encodeEntries_of_fits path room entries shallowEntries finite
      exact ⟨.object wires, by simp only [encodeAt, encoded]⟩

theorem encodeItems_of_fits
    (path : String) :
    ∀ (index room : Nat) (values : List AttributeValue),
      depthOfItems values ≤ room → onlyFiniteItems values = true →
        ∃ wires, encodeItems path index room values = .ok wires
  | _, _, [], _, _ => ⟨[], rfl⟩
  | index, room, value :: rest, shallow, finite => by
      rw [depthOfItems, Nat.max_le] at shallow
      rw [onlyFiniteItems, Bool.and_eq_true] at finite
      obtain ⟨wire, encodedFirst⟩ :=
        encodeAt_of_fits (itemPath path index) room value shallow.1 finite.1
      obtain ⟨wires, encodedRest⟩ :=
        encodeItems_of_fits path (index + 1) room rest shallow.2 finite.2
      exact ⟨wire :: wires, by
        simp only [encodeItems, encodedFirst, encodedRest]⟩

theorem encodeEntries_of_fits
    (path : String) :
    ∀ (room : Nat) (values : List (String × AttributeValue)),
      depthOfEntries values ≤ room → onlyFiniteEntries values = true →
        ∃ wires, encodeEntries path room values = .ok wires
  | _, [], _, _ => ⟨[], rfl⟩
  | room, (key, value) :: rest, shallow, finite => by
      rw [depthOfEntries, Nat.max_le] at shallow
      rw [onlyFiniteEntries, Bool.and_eq_true] at finite
      obtain ⟨wire, encodedFirst⟩ :=
        encodeAt_of_fits (keyPath path key) room value shallow.1 finite.1
      obtain ⟨wires, encodedRest⟩ :=
        encodeEntries_of_fits path room rest shallow.2 finite.2
      exact ⟨(key, wire) :: wires, by
        simp only [encodeEntries, encodedFirst, encodedRest]⟩

end

end AttributeValue

/-! ## Maps of attributes -/

namespace Attributes

/-- Whether every value has a wire form. -/
def Fit (attributes : Attributes) : Prop :=
  ∀ entry ∈ attributes.entries,
    entry.2.depth ≤ deepestLevel ∧ entry.2.onlyFinite = true

theorem fit_empty : Fit .empty :=
  fun _ member => absurd member List.not_mem_nil

theorem Fit.take
    {attributes : Attributes} (fit : attributes.Fit) (count : Nat) :
    Fit (attributes.take count) :=
  fun entry member => fit entry (KeyMap.mem_of_mem_take member)

theorem fits_of_decodeList
    {wires : List (String × Json)} {entry : String × AttributeValue}
    (member : entry ∈ (decodeList wires).1) :
    entry.2.depth ≤ deepestLevel ∧ entry.2.onlyFinite = true := by
  induction wires with
  | nil => simp [decodeList] at member
  | cons head rest inductionHypothesis =>
      obtain ⟨key, wire⟩ := head
      simp only [decodeList] at member
      split at member
      · exact inductionHypothesis member
      · rename_i value decoded
        rcases List.mem_cons.mp member with rfl | inRest
        · exact
            AttributeValue.fits_of_decodeAt key deepestLevel wire value decoded
        · exact inductionHypothesis inRest

theorem fit_of_decode
    {wires : KeyMap Json} {attributes : Attributes}
    (decoded : decode wires = .ok attributes) :
    attributes.Fit := by
  unfold decode at decoded
  split at decoded
  · rename_i values isDecoded
    cases decoded
    intro entry member
    have isValue : entry ∈ (decodeList wires.entries).1 := by
      rw [isDecoded]
      exact KeyMap.mem_of_mem_ofList member
    exact fits_of_decodeList isValue
  · cases decoded

theorem encodeList_of_fit
    {entries : List (String × AttributeValue)}
    (fit :
      ∀ entry ∈ entries,
        entry.2.depth ≤ deepestLevel ∧ entry.2.onlyFinite = true) :
    ∃ wires, encodeList entries = .ok wires := by
  induction entries with
  | nil => exact ⟨[], rfl⟩
  | cons head rest inductionHypothesis =>
      obtain ⟨key, value⟩ := head
      obtain ⟨shallow, finite⟩ := fit (key, value) List.mem_cons_self
      obtain ⟨wire, encodedFirst⟩ :=
        AttributeValue.encodeAt_of_fits key deepestLevel value shallow finite
      obtain ⟨wires, encodedRest⟩ :=
        inductionHypothesis fun entry member =>
          fit entry (List.mem_cons_of_mem _ member)
      exact ⟨(key, wire) :: wires, by
        simp only [encodeList, encodedFirst, encodedRest]⟩

theorem encode_of_fit
    {attributes : Attributes} (fit : attributes.Fit) :
    ∃ wires, attributes.encode = .ok wires := by
  obtain ⟨wires, encoded⟩ := encodeList_of_fit fit
  exact ⟨KeyMap.ofList wires, by simp only [encode, encoded]⟩

end Attributes

end TraceArchive
