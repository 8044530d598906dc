import Mathlib.Data.List.Forall2
import TraceArchive.Proofs.Attribute.Levels

/-!
# What the attribute codec refuses, and where

A value is gone through in the order of the document, and the first element that
has no place on the wire is refused under the path that leads to it. Of a map
that is read, every key whose value is refused is told, of one that is written
the first. The path is the key with every step to the element behind it, except
that an empty key at its beginning is left out together with the point that
follows. The main statement is `Attributes.refused_with_path`, and
`Attributes.misnamed_under_emptyKey` shows an element under a wrong path.
-/

namespace TraceArchive

namespace Json

/-! ## Elements in the order of the document -/

/-- A step from a value to one that is directly in it. -/
inductive Step where
  | key (key : String)
  | index (index : Nat)
deriving DecidableEq, Repr

/-- An element of a value that is one step away, with the steps to both. -/
def behind (step : Step) (element : List Step × Json) : List Step × Json :=
  (step :: element.1, element.2)

mutual

/-- A value and all values in it, with the steps that lead to each. Every value
comes before those in it, and these in their order. -/
def elements : Json → List (List Step × Json)
  | .list items => ([], .list items) :: elementsOfItems 0 items
  | .object entries => ([], .object entries) :: elementsOfEntries entries
  | value => [([], value)]

/-- The elements of the items of a list, counted from an index. -/
def elementsOfItems (index : Nat) : List Json → List (List Step × Json)
  | [] => []
  | item :: rest =>
      (elements item).map (behind (.index index)) ++
        elementsOfItems (index + 1) rest

/-- The elements of the entries of an object. -/
def elementsOfEntries : List (String × Json) → List (List Step × Json)
  | [] => []
  | (key, value) :: rest =>
      (elements value).map (behind (.key key)) ++ elementsOfEntries rest

end

theorem elements_eq_cons (value : Json) :
    ∃ inner, value.elements = ([], value) :: inner := by
  cases value with
  | list items => exact ⟨elementsOfItems 0 items, by rw [elements]⟩
  | object entries => exact ⟨elementsOfEntries entries, by rw [elements]⟩
  | _ => exact ⟨[], by simp only [elements]⟩

/-! ## Elements without a place on the wire -/

/-- What is wrong with an element of a value that has room for a number of
levels: it is just below the last of them, or a number that is not finite. -/
def fault? (room : Nat) (element : List Step × Json) :
    Option AttributeFault :=
  if element.1.length = room then some .tooDeep
  else
    match element.2 with
    | .number wire =>
        if wire.toDouble.isFinite then none
        else some (.notFinite wire.toDouble)
    | _ => none

/-- Whether the first element with anything wrong about it is where the steps
lead, and this is the fault. -/
def FirstFault (value : Json) (steps : List Step) (fault : AttributeFault) :
    Prop :=
  ∃ before element after,
    value.elements = before ++ (steps, element) :: after ∧
      fault? deepestLevel (steps, element) = some fault ∧
        ∀ earlier ∈ before, fault? deepestLevel earlier = none

theorem fault?_behind
    (room : Nat) (step : Step) (element : List Step × Json) :
    fault? (room + 1) (behind step element) = fault? room element := by
  simp only [fault?, behind, List.length_cons, Nat.add_right_cancel_iff]

/-! ## Paths -/

/-- A step as paths name it. -/
def Step.spelling : Step → String
  | .key name => "." ++ name
  | .index position => "[" ++ toString position ++ "]"

/-- The path to an element of the value under a key: the key with every step
behind it. -/
def elementPath (key : String) (steps : List Step) : String :=
  steps.foldl (fun path step => path ++ step.spelling) key

/-- The path that is told: an empty key at the beginning is left out together
with the point behind it. -/
def toldPath : String → List Step → String
  | name, .key next :: rest =>
      if name = "" then toldPath next rest
      else elementPath name (.key next :: rest)
  | name, steps => elementPath name steps

/-- Whether steps lead into a map first. -/
def EntersMap (steps : List Step) : Prop :=
  ∃ next rest, steps = .key next :: rest

/-- The path with one more step. -/
def Step.extend (path : String) : Step → String
  | .key name => AttributeValue.keyPath path name
  | .index position => AttributeValue.itemPath path position

theorem elementPath_cons (key : String) (step : Step) (rest : List Step) :
    elementPath key (step :: rest) = elementPath (key ++ step.spelling) rest :=
  rfl

theorem elementPath_append (first second : String) (steps : List Step) :
    elementPath (first ++ second) steps = first ++ elementPath second steps := by
  induction steps generalizing second with
  | nil => rfl
  | cons step rest inductionHypothesis =>
      rw [elementPath_cons, elementPath_cons, String.append_assoc,
        inductionHypothesis]

theorem toldPath_of_ne
    {key : String} (filled : key ≠ "") (steps : List Step) :
    toldPath key steps = elementPath key steps := by
  cases steps with
  | nil => rfl
  | cons step rest =>
      cases step with
      | key next => rw [toldPath, if_neg filled]
      | index index => rfl

theorem extend_of_ne
    {path : String} (filled : path ≠ "") (step : Step) :
    step.extend path = path ++ step.spelling := by
  cases step with
  | key key =>
      have notEmpty : path.isEmpty = false := by simpa using filled
      simp only [Step.extend, Step.spelling, AttributeValue.keyPath, notEmpty,
        Bool.false_eq_true, if_false, String.append_assoc]
  | index index =>
      simp only [Step.extend, Step.spelling, AttributeValue.itemPath,
        String.append_assoc]

/-- The path is told as it is put together step by step. -/
theorem toldPath_cons (path : String) (step : Step) (rest : List Step) :
    toldPath path (step :: rest) = toldPath (step.extend path) rest := by
  by_cases filled : path = ""
  · subst filled
    cases step with
    | key next => rfl
    | index index =>
        have notEmpty : (Step.index index).extend "" ≠ "" := by
          simp [Step.extend, AttributeValue.itemPath]
        rw [toldPath_of_ne notEmpty]
        rfl
  · have notEmpty : step.extend path ≠ "" := by
      rw [extend_of_ne filled]
      simp [filled]
    rw [toldPath_of_ne filled, toldPath_of_ne notEmpty, elementPath_cons,
      extend_of_ne filled]

theorem length_toldPath_le (key : String) (steps : List Step) :
    (toldPath key steps).length ≤ (elementPath key steps).length := by
  induction steps generalizing key with
  | nil => exact Nat.le_refl _
  | cons step rest inductionHypothesis =>
      by_cases filled : key = ""
      · subst filled
        cases step with
        | key next =>
            have shorter := inductionHypothesis next
            have isSpelled :
                elementPath "" (.key next :: rest) =
                  "." ++ elementPath next rest :=
              elementPath_append "." next rest
            rw [isSpelled, String.length_append]
            exact Nat.le_trans shorter (Nat.le_add_left _ _)
        | index index => exact Nat.le_refl _
      · exact
          Nat.le_of_eq (congrArg String.length (toldPath_of_ne filled _))

/-- The path that is told is the path to the element, except behind an empty key
at its beginning. -/
theorem toldPath_eq_iff (key : String) (steps : List Step) :
    toldPath key steps = elementPath key steps ↔
      ¬(key = "" ∧ EntersMap steps) := by
  constructor
  · rintro same ⟨rfl, next, rest, rfl⟩
    have isSpelled :
        elementPath "" (.key next :: rest) = "." ++ elementPath next rest :=
      elementPath_append "." next rest
    have told : toldPath "" (.key next :: rest) = toldPath next rest := rfl
    have lengths := congrArg String.length same
    rw [told, isSpelled, String.length_append] at lengths
    have shorter := length_toldPath_le next rest
    have point : ".".length = 1 := rfl
    omega
  · intro named
    by_cases filled : key = ""
    · subst filled
      cases steps with
      | nil => rfl
      | cons step rest =>
          cases step with
          | key next => exact absurd ⟨rfl, next, rest, rfl⟩ named
          | index index => rfl
    · exact toldPath_of_ne filled steps

end Json

/-! ## Errors of single values -/

/-- The error of an attempt, if there is one. -/
def AttributeError.failure? {Value : Type} :
    Except AttributeError Value → Option AttributeError
  | .error error => some error
  | .ok _ => none

namespace AttributeValue

open AttributeError (failure?)
open Json (Step behind fault? toldPath elements elementsOfItems
  elementsOfEntries)

/-- The error about an element of the value at a path, if anything is wrong with
the element. -/
def refusal? (room : Nat) (path : String) (element : List Step × Json) :
    Option AttributeError :=
  (fault? room element).map fun fault => ⟨toldPath path element.1, fault⟩

theorem refusal?_behind
    (room : Nat) (path : String) (step : Step) (element : List Step × Json) :
    refusal? (room + 1) path (behind step element) =
      refusal? room (step.extend path) element := by
  rw [refusal?, Json.fault?_behind, behind, Json.toldPath_cons, refusal?]

theorem findSome?_behind
    (room : Nat) (path : String) (step : Step)
    (inner : List (List Step × Json)) :
    (inner.map (behind step)).findSome? (refusal? (room + 1) path) =
      inner.findSome? (refusal? room (step.extend path)) := by
  rw [List.findSome?_map]
  congr 1
  funext element
  exact refusal?_behind room path step element

theorem refusal?_outermost
    (room : Nat) (path : String) (value : Json) :
    refusal? (room + 1) path ([], value) =
      match value with
      | .number wire =>
          if wire.toDouble.isFinite then none
          else some ⟨path, .notFinite wire.toDouble⟩
      | _ => none := by
  cases value with
  | number wire =>
      simp only [refusal?, fault?, List.length_nil, Nat.zero_ne_add_one,
        if_false]
      split <;> rfl
  | _ => rfl

section Decoding

theorem failure?_decodeItems_cons
    (path : String) (index room : Nat) (item : Json) (rest : List Json) :
    failure? (decodeItems path index room (item :: rest)) =
      (failure? (decodeAt (itemPath path index) room item)).or
        (failure? (decodeItems path (index + 1) room rest)) := by
  rw [decodeItems]
  cases decodeAt (itemPath path index) room item with
  | error error => rfl
  | ok value => cases decodeItems path (index + 1) room rest <;> rfl

theorem failure?_decodeEntries_cons
    (path : String) (room : Nat) (key : String) (value : Json)
    (rest : List (String × Json)) :
    failure? (decodeEntries path room ((key, value) :: rest)) =
      (failure? (decodeAt (keyPath path key) room value)).or
        (failure? (decodeEntries path room rest)) := by
  rw [decodeEntries]
  cases decodeAt (keyPath path key) room value with
  | error error => rfl
  | ok value => cases decodeEntries path room rest <;> rfl

theorem failure?_decodeAt_list
    (path : String) (room : Nat) (items : List Json) :
    failure? (decodeAt path (room + 1) (.list items)) =
      failure? (decodeItems path 0 room items) := by
  rw [decodeAt]
  cases decodeItems path 0 room items <;> rfl

theorem failure?_decodeAt_object
    (path : String) (room : Nat) (entries : List (String × Json)) :
    failure? (decodeAt path (room + 1) (.object entries)) =
      failure? (decodeEntries path room entries) := by
  rw [decodeAt]
  cases decodeEntries path room entries <;> rfl

mutual

/-- A value is refused with the error about the first of its elements with which
anything is wrong. -/
theorem failure?_decodeAt :
    ∀ (value : Json) (path : String) (room : Nat),
      failure? (decodeAt path room value) =
        value.elements.findSome? (refusal? room path)
  | value, path, 0 => by
      obtain ⟨inner, isFirst⟩ := value.elements_eq_cons
      rw [isFirst, decodeAt]
      rfl
  | .null, _, _ + 1 => rfl
  | .boolean _, _, _ + 1 => rfl
  | .number wire, path, room + 1 => by
      have alone : (Json.number wire).elements = [([], .number wire)] := rfl
      rw [alone, List.findSome?_singleton, refusal?_outermost, decodeAt]
      dsimp only
      split <;> rfl
  | .string _, _, _ + 1 => rfl
  | .list items, path, room + 1 => by
      rw [failure?_decodeAt_list, failure?_decodeItems items path 0 room,
        elements, List.findSome?_cons, refusal?_outermost]
  | .object entries, path, room + 1 => by
      rw [failure?_decodeAt_object, failure?_decodeEntries entries path room,
        elements, List.findSome?_cons, refusal?_outermost]

theorem failure?_decodeItems :
    ∀ (items : List Json) (path : String) (index room : Nat),
      failure? (decodeItems path index room items) =
        (elementsOfItems index items).findSome? (refusal? (room + 1) path)
  | [], _, _, _ => rfl
  | item :: rest, path, index, room => by
      rw [failure?_decodeItems_cons, failure?_decodeAt item,
        failure?_decodeItems rest, elementsOfItems, List.findSome?_append,
        findSome?_behind]
      rfl

theorem failure?_decodeEntries :
    ∀ (entries : List (String × Json)) (path : String) (room : Nat),
      failure? (decodeEntries path room entries) =
        (elementsOfEntries entries).findSome? (refusal? (room + 1) path)
  | [], _, _ => rfl
  | (key, value) :: rest, path, room => by
      rw [failure?_decodeEntries_cons, failure?_decodeAt value,
        failure?_decodeEntries rest, elementsOfEntries, List.findSome?_append,
        findSome?_behind]
      rfl

end

end Decoding

section Encoding

theorem failure?_encodeItems_cons
    (path : String) (index room : Nat) (item : AttributeValue)
    (rest : List AttributeValue) :
    failure? (encodeItems path index room (item :: rest)) =
      (failure? (encodeAt (itemPath path index) room item)).or
        (failure? (encodeItems path (index + 1) room rest)) := by
  rw [encodeItems]
  cases encodeAt (itemPath path index) room item with
  | error error => rfl
  | ok value => cases encodeItems path (index + 1) room rest <;> rfl

theorem failure?_encodeEntries_cons
    (path : String) (room : Nat) (key : String) (value : AttributeValue)
    (rest : List (String × AttributeValue)) :
    failure? (encodeEntries path room ((key, value) :: rest)) =
      (failure? (encodeAt (keyPath path key) room value)).or
        (failure? (encodeEntries path room rest)) := by
  rw [encodeEntries]
  cases encodeAt (keyPath path key) room value with
  | error error => rfl
  | ok value => cases encodeEntries path room rest <;> rfl

theorem failure?_encodeAt_list
    (path : String) (room : Nat) (items : List AttributeValue) :
    failure? (encodeAt path (room + 1) (.list items)) =
      failure? (encodeItems path 0 room items) := by
  rw [encodeAt]
  cases encodeItems path 0 room items <;> rfl

theorem failure?_encodeAt_map
    (path : String) (room : Nat) (entries : List (String × AttributeValue)) :
    failure? (encodeAt path (room + 1) (.map entries)) =
      failure? (encodeEntries path room entries) := by
  rw [encodeAt]
  cases encodeEntries path room entries <;> rfl

theorem failure?_encodeAt_number
    (path : String) (room : Nat) (value : Double) :
    failure? (encodeAt path (room + 1) (.number value)) =
      if value.isFinite then none else some ⟨path, .notFinite value⟩ := by
  rw [encodeAt]
  by_cases finite : value.isFinite = true
  · obtain ⟨wire, isWire⟩ := encodeNumber?_of_finite finite
    rw [isWire, if_pos finite]
    rfl
  · have noWire : encodeNumber? value = none := by
      rw [encodeNumber?, if_neg finite]
    rw [noWire, if_neg finite]
    rfl

mutual

/-- Writing a value fails as reading its stored form does. -/
theorem failure?_encodeAt :
    ∀ (value : AttributeValue) (path : String) (room : Nat),
      failure? (encodeAt path room value) =
        failure? (decodeAt path room value.toStored)
  | value, path, 0 => by
      rw [encodeAt, decodeAt]
      rfl
  | .null, _, _ + 1 => rfl
  | .boolean _, _, _ + 1 => rfl
  | .number value, path, room + 1 => by
      rw [failure?_encodeAt_number, toStored, decodeAt, Json.Number.toDouble]
      split <;> rfl
  | .string _, _, _ + 1 => rfl
  | .list items, path, room + 1 => by
      rw [failure?_encodeAt_list, toStored, failure?_decodeAt_list,
        failure?_encodeItems items]
  | .map entries, path, room + 1 => by
      rw [failure?_encodeAt_map, toStored, failure?_decodeAt_object,
        failure?_encodeEntries entries]

theorem failure?_encodeItems :
    ∀ (items : List AttributeValue) (path : String) (index room : Nat),
      failure? (encodeItems path index room items) =
        failure? (decodeItems path index room (storedItems items))
  | [], _, _, _ => rfl
  | item :: rest, path, index, room => by
      rw [failure?_encodeItems_cons, storedItems, failure?_decodeItems_cons,
        failure?_encodeAt item, failure?_encodeItems rest]

theorem failure?_encodeEntries :
    ∀ (entries : List (String × AttributeValue)) (path : String) (room : Nat),
      failure? (encodeEntries path room entries) =
        failure? (decodeEntries path room (storedEntries entries))
  | [], _, _ => rfl
  | (key, value) :: rest, path, room => by
      rw [failure?_encodeEntries_cons, storedEntries,
        failure?_decodeEntries_cons, failure?_encodeAt value,
        failure?_encodeEntries rest]

end

end Encoding

/-! ## Values that are refused under any path -/

theorem isOk_eq_not_isSome_failure?
    {Value : Type} (result : Except AttributeError Value) :
    result.isOk = !(failure? result).isSome := by
  cases result <;> rfl

/-- Whether a value is refused does not depend on where it stands. -/
theorem isSome_failure?_decodeAt
    (value : Json) (path other : String) (room : Nat) :
    (failure? (decodeAt path room value)).isSome =
      (failure? (decodeAt other room value)).isSome := by
  rw [failure?_decodeAt, failure?_decodeAt, List.isSome_findSome?,
    List.isSome_findSome?]
  congr 1
  funext element
  rw [refusal?, refusal?, Option.isSome_map, Option.isSome_map]

theorem isOk_decode (value : Json) (path : String) :
    (decode value).isOk =
      !(failure? (decodeAt path deepestLevel value)).isSome := by
  rw [decode, isOk_eq_not_isSome_failure?,
    isSome_failure?_decodeAt value "" path]

theorem isOk_encode (value : AttributeValue) (path : String) :
    (encode value).isOk =
      !(failure? (encodeAt path deepestLevel value)).isSome := by
  rw [encode, isOk_eq_not_isSome_failure?, failure?_encodeAt,
    failure?_encodeAt, isSome_failure?_decodeAt _ "" path]

end AttributeValue

/-! ## Errors of maps -/

/-- Whether an error is about the first element of the value under a key with
which anything is wrong. Its path leads from the key to that element, except
that an empty key before a map, and the point behind it, are left out. -/
def AttributeError.Tells (error : AttributeError) (key : String)
    (value : Json) : Prop :=
  ∃ steps, value.FirstFault steps error.fault ∧
    error.path = Json.toldPath key steps ∧
      (error.path = Json.elementPath key steps ↔
        ¬(key = "" ∧ Json.EntersMap steps))

namespace Attributes

open AttributeError (failure?)
open AttributeValue (decodeAt encodeAt failure?_decodeAt failure?_encodeAt
  refusal? isOk_decode isOk_encode)

theorem tells_of_failure?
    {key : String} {value : Json} {error : AttributeError}
    (failed : failure? (decodeAt key deepestLevel value) = some error) :
    error.Tells key value := by
  rw [failure?_decodeAt] at failed
  obtain ⟨before, ⟨steps, element⟩, after, areAll, isRefused, inOrder⟩ :=
    List.findSome?_eq_some_iff.mp failed
  obtain ⟨fault, isFault, rfl⟩ := Option.map_eq_some_iff.mp isRefused
  refine ⟨steps, ⟨before, element, after, areAll, isFault, ?_⟩, rfl, ?_⟩
  · intro earlier member
    exact Option.map_eq_none_iff.mp (inOrder earlier member)
  · exact Json.toldPath_eq_iff key steps

theorem errors_decodeList (entries : List (String × Json)) :
    (decodeList entries).2 =
      entries.filterMap fun entry =>
        failure? (decodeAt entry.1 deepestLevel entry.2) := by
  induction entries with
  | nil => rfl
  | cons entry rest inductionHypothesis =>
      obtain ⟨key, value⟩ := entry
      rw [List.filterMap_cons, ← inductionHypothesis, decodeList]
      cases decodeAt key deepestLevel value <;> rfl

theorem failure?_encodeList (entries : List (String × AttributeValue)) :
    failure? (encodeList entries) =
      entries.findSome? fun entry =>
        failure? (encodeAt entry.1 deepestLevel entry.2) := by
  induction entries with
  | nil => rfl
  | cons entry rest inductionHypothesis =>
      obtain ⟨key, value⟩ := entry
      rw [List.findSome?_cons, ← inductionHypothesis, encodeList]
      cases encodeAt key deepestLevel value with
      | error error => rfl
      | ok wire => cases encodeList rest <;> rfl

theorem decode_of_errors
    {wires : KeyMap Json} {first : AttributeError} {rest : List AttributeError}
    (errors : (decodeList wires.entries).2 = first :: rest) :
    decode wires = .error (first :: rest) := by
  rw [decode]
  generalize decodeList wires.entries = decoded at errors
  obtain ⟨values, _⟩ := decoded
  cases errors
  rfl

/-- The results of a partial function belong to the arguments that have one. -/
theorem forall₂_filterMap
    {Argument Result : Type} (function : Argument → Option Result)
    (arguments : List Argument) :
    List.Forall₂ (fun argument result => function argument = some result)
      (arguments.filter fun argument => (function argument).isSome)
      (arguments.filterMap function) := by
  induction arguments with
  | nil => exact .nil
  | cons argument rest inductionHypothesis =>
      cases isResult : function argument with
      | none =>
          rw [List.filter_cons_of_neg (by simp [isResult]),
            List.filterMap_cons_none isResult]
          exact inductionHypothesis
      | some result =>
          rw [List.filter_cons_of_pos (by simp [isResult]),
            List.filterMap_cons_some isResult]
          exact .cons isResult inductionHypothesis

/-- There is one error for each entry whose value cannot be decoded, in the order
of the keys. -/
theorem forall₂_errors_decodeList (entries : List (String × Json)) :
    List.Forall₂ (fun entry error => error.Tells entry.1 entry.2)
      (entries.filter fun entry => !(AttributeValue.decode entry.2).isOk)
      (decodeList entries).2 := by
  have areRefused :
      (fun entry : String × Json =>
          !(AttributeValue.decode entry.2).isOk) =
        fun entry =>
          (failure? (decodeAt entry.1 deepestLevel entry.2)).isSome := by
    funext entry
    rw [isOk_decode entry.2 entry.1, Bool.not_not]
  rw [areRefused, errors_decodeList]
  refine List.Forall₂.imp ?_ (forall₂_filterMap _ entries)
  exact fun _ _ => tells_of_failure?

/-- Attributes that are read are accepted if every value can be decoded.
Otherwise there is exactly one error for each key whose value cannot, in the
order of the keys. Attributes that are written are accepted if every value can be
encoded, otherwise there is the error about the first key whose value cannot.
Each error is about the first element of its value, in the order of the document,
with which anything is wrong: an element just below the deepest level or a number
that is not finite. It tells what is wrong and the path from the key to the
element, a point and the key for each step into a map and the index in brackets
for each step into a list, whatever characters the keys have; but an empty key is
left out together with the point behind it if the first step is into a map. -/
theorem refused_with_path (wires : KeyMap Json) (attributes : Attributes) :
    (match decode wires with
      | .ok _ =>
          ∀ entry ∈ wires.entries,
            (AttributeValue.decode entry.2).isOk = true
      | .error errors =>
          errors ≠ [] ∧
            List.Forall₂ (fun entry error => error.Tells entry.1 entry.2)
              (wires.entries.filter fun entry =>
                !(AttributeValue.decode entry.2).isOk)
              errors) ∧
      match attributes.encode with
      | .ok _ =>
          ∀ entry ∈ attributes.entries,
            (AttributeValue.encode entry.2).isOk = true
      | .error error =>
          ∃ before entry after,
            attributes.entries = before ++ entry :: after ∧
              (∀ earlier ∈ before,
                (AttributeValue.encode earlier.2).isOk = true) ∧
                error.Tells entry.1 entry.2.toStored := by
  constructor
  · have told := forall₂_errors_decodeList wires.entries
    rw [decode]
    cases decoded : decodeList wires.entries with
    | mk values errors =>
        rw [decoded] at told
        cases errors with
        | nil =>
            have noneRefused := List.forall₂_nil_right_iff.mp told
            intro entry member
            simpa using List.filter_eq_nil_iff.mp noneRefused entry member
        | cons first rest => exact ⟨List.cons_ne_nil first rest, told⟩
  · have failed := failure?_encodeList attributes.entries
    rw [encode]
    cases encoded : encodeList attributes.entries with
    | ok values =>
        rw [encoded] at failed
        have noneRefused := List.findSome?_eq_none_iff.mp failed.symm
        intro entry member
        rw [isOk_encode entry.2 entry.1, noneRefused entry member]
        rfl
    | error error =>
        rw [encoded] at failed
        obtain ⟨before, entry, after, areAll, isFailure, inOrder⟩ :=
          List.findSome?_eq_some_iff.mp failed.symm
        refine ⟨before, entry, after, areAll, ?_, ?_⟩
        · intro earlier member
          rw [isOk_encode earlier.2 earlier.1, inOrder earlier member]
          rfl
        · rw [failure?_encodeAt] at isFailure
          exact tells_of_failure? isFailure

/-- A value in lists in one another. -/
def inLists : Nat → Json → Json
  | 0, value => value
  | levels + 1, value => .list [inLists levels value]

/-- A value on the level below the deepest, in a map under the key `b` in the map
under the empty key, is told under a path from the key `b` on, as if that were
the key of the attribute, when it is read; so is a number that is not finite when
it is written. The paths to them begin with the point behind the empty key. -/
theorem misnamed_under_emptyKey :
    let deep : Json := .object [("b", inLists 31 .null)]
    let steps : List Json.Step := .key "b" :: List.replicate 31 (.index 0)
    let infinite : AttributeValue := .map [("b", .number (.infinity false))]
    (decode (.ofList [("", deep)]) =
          .error
            [⟨"b" ++ String.join (List.replicate 31 "[0]"), .tooDeep⟩] ∧
        deep.FirstFault steps .tooDeep ∧
          Json.elementPath "" steps =
            ".b" ++ String.join (List.replicate 31 "[0]")) ∧
      encode (.ofList [("", infinite)]) =
          .error ⟨"b", .notFinite (.infinity false)⟩ ∧
        infinite.toStored.FirstFault [.key "b"]
            (.notFinite (.infinity false)) ∧
          Json.elementPath "" [.key "b"] = ".b" := by
  refine ⟨⟨decode_of_errors ?_, ?_, by rfl⟩, by rfl, ?_, by rfl⟩
  · decide +kernel
  · exact
      ⟨(Json.object [("b", inLists 31 .null)]).elements.take 32, .null, [],
        by rfl, by rfl, by decide +kernel⟩
  · exact
      ⟨[([], .object [("b", .number (.double (.infinity false)))])],
        .number (.double (.infinity false)), [], by rfl, by rfl,
        by decide +kernel⟩

end Attributes

end TraceArchive
