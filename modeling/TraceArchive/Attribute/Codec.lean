import TraceArchive.Attribute.Basic

/-!
# Attribute values on the wire

On the wire an attribute is a JSON value. Values nested too deeply and numbers
that are not finite have no wire form and are refused with the path to the
first such element. Whole numbers within the exact range of doubles are written
without a fraction.
-/

namespace TraceArchive

/-- Why an element of an attribute has no place on the wire. -/
inductive AttributeFault where
  /-- The element is below the deepest level. -/
  | tooDeep
  /-- The element is a number that is not finite. -/
  | notFinite (value : Double)
deriving DecidableEq

/-- An element that was refused, with the path that leads to it. -/
structure AttributeError where
  path : String
  fault : AttributeFault
deriving DecidableEq

/-- The levels that a value on the wire may have. -/
def deepestLevel : Nat := 32

/-- The greatest magnitude up to which doubles hold every whole number. -/
def exactLimit : Int := 9007199254740992

/-- The word for a number that is not finite. -/
def Double.notFiniteName (value : Double) : String :=
  if value.isNotANumber then "NaN"
  else if value.negative then "-inf"
  else "inf"

/-- The wording of each fault. -/
def AttributeFault.message : AttributeFault → String
  | .tooDeep => "nesting exceeds " ++ toString deepestLevel ++ " levels"
  | .notFinite value =>
      "number " ++ value.notFiniteName ++ " has no wire representation"

/-- The wording of an error. -/
def AttributeError.message (error : AttributeError) : String :=
  "attribute '" ++ error.path ++ "': " ++ error.fault.message

namespace AttributeValue

/-! ## Paths -/

/-- The path to the value under a key of the map at a path. -/
def keyPath (path key : String) : String :=
  if path.isEmpty then key else path ++ "." ++ key

/-- The path to an item of the list at a path. -/
def itemPath (path : String) (index : Nat) : String :=
  path ++ "[" ++ toString index ++ "]"

/-! ## Writing -/

/-- The wire form of a number, if it is finite. -/
def encodeNumber? (value : Double) : Option Json.Number :=
  if value.isFinite then
    let whole := value.wholePart
    if isExact : value.isWhole ∧ -exactLimit ≤ whole ∧ whole ≤ exactLimit then
      some (.integer whole (by
        have bounds := isExact.2
        simp only [exactLimit] at bounds
        omega))
    else some (.double value)
  else none

mutual

/-- The wire form of a value at a path, with room for a number of levels. -/
def encodeAt (path : String) :
    Nat → AttributeValue → Except AttributeError Json
  | 0, _ => .error ⟨path, .tooDeep⟩
  | _ + 1, .null => .ok .null
  | _ + 1, .boolean value => .ok (.boolean value)
  | _ + 1, .number value =>
      match encodeNumber? value with
      | none => .error ⟨path, .notFinite value⟩
      | some wire => .ok (.number wire)
  | _ + 1, .string value => .ok (.string value)
  | room + 1, .list items =>
      match encodeItems path 0 room items with
      | .error error => .error error
      | .ok wires => .ok (.list wires)
  | room + 1, .map entries =>
      match encodeEntries path room entries with
      | .error error => .error error
      | .ok wires => .ok (.object wires)

/-- The wire forms of the items of a list, counted from an index. -/
def encodeItems (path : String) (index room : Nat) :
    List AttributeValue → Except AttributeError (List Json)
  | [] => .ok []
  | item :: rest =>
      match encodeAt (itemPath path index) room item with
      | .error error => .error error
      | .ok wire =>
          match encodeItems path (index + 1) room rest with
          | .error error => .error error
          | .ok wires => .ok (wire :: wires)

/-- The wire forms of the entries of a map. -/
def encodeEntries (path : String) (room : Nat) :
    List (String × AttributeValue) →
      Except AttributeError (List (String × Json))
  | [] => .ok []
  | (key, value) :: rest =>
      match encodeAt (keyPath path key) room value with
      | .error error => .error error
      | .ok wire =>
          match encodeEntries path room rest with
          | .error error => .error error
          | .ok wires => .ok ((key, wire) :: wires)

end

/-- The wire form of a value. -/
def encode (value : AttributeValue) : Except AttributeError Json :=
  encodeAt "" deepestLevel value

/-! ## Reading -/

mutual

/-- The value of a wire form at a path, with room for a number of levels. -/
def decodeAt (path : String) :
    Nat → Json → Except AttributeError AttributeValue
  | 0, _ => .error ⟨path, .tooDeep⟩
  | _ + 1, .null => .ok .null
  | _ + 1, .boolean value => .ok (.boolean value)
  | _ + 1, .number wire =>
      let value := wire.toDouble
      if value.isFinite then .ok (.number value)
      else .error ⟨path, .notFinite value⟩
  | _ + 1, .string value => .ok (.string value)
  | room + 1, .list items =>
      match decodeItems path 0 room items with
      | .error error => .error error
      | .ok values => .ok (.list values)
  | room + 1, .object entries =>
      match decodeEntries path room entries with
      | .error error => .error error
      | .ok values => .ok (.map values)

/-- The values of the items of a list, counted from an index. -/
def decodeItems (path : String) (index room : Nat) :
    List Json → Except AttributeError (List AttributeValue)
  | [] => .ok []
  | item :: rest =>
      match decodeAt (itemPath path index) room item with
      | .error error => .error error
      | .ok value =>
          match decodeItems path (index + 1) room rest with
          | .error error => .error error
          | .ok values => .ok (value :: values)

/-- The values of the entries of an object. -/
def decodeEntries (path : String) (room : Nat) :
    List (String × Json) →
      Except AttributeError (List (String × AttributeValue))
  | [] => .ok []
  | (key, wire) :: rest =>
      match decodeAt (keyPath path key) room wire with
      | .error error => .error error
      | .ok value =>
          match decodeEntries path room rest with
          | .error error => .error error
          | .ok values => .ok ((key, value) :: values)

end

/-- The value of a wire form. -/
def decode (wire : Json) : Except AttributeError AttributeValue :=
  decodeAt "" deepestLevel wire

end AttributeValue

/-! ## Whole maps of attributes -/

namespace Attributes

/-- The wire forms of entries, or the error of the first that has none. -/
def encodeList :
    List (String × AttributeValue) →
      Except AttributeError (List (String × Json))
  | [] => .ok []
  | (key, value) :: rest =>
      match AttributeValue.encodeAt key deepestLevel value with
      | .error error => .error error
      | .ok wire =>
          match encodeList rest with
          | .error error => .error error
          | .ok wires => .ok ((key, wire) :: wires)

/-- The wire form of attributes, or the error of the first key without one. -/
def encode (attributes : Attributes) : Except AttributeError (KeyMap Json) :=
  match encodeList attributes.entries with
  | .error error => .error error
  | .ok wires => .ok (KeyMap.ofList wires)

/-- The values of those entries that have one, and the errors of the others,
both in order. -/
def decodeList :
    List (String × Json) →
      List (String × AttributeValue) × List AttributeError
  | [] => ([], [])
  | (key, wire) :: rest =>
      let (values, errors) := decodeList rest
      match AttributeValue.decodeAt key deepestLevel wire with
      | .error error => (values, error :: errors)
      | .ok value => ((key, value) :: values, errors)

/-- The attributes of a wire form, or the error of every key that has no value,
in the order of the keys. -/
def decode (wires : KeyMap Json) : Except (List AttributeError) Attributes :=
  match decodeList wires.entries with
  | (values, []) => .ok (KeyMap.ofList values)
  | (_, errors) => .error errors

end Attributes

end TraceArchive
