import TraceArchive.Json.Reader

/-!
# Attribute values

An attribute is a tree of lists and maps with simple values at its leaves.
Numbers are doubles. The entries of a map are in ascending order of the keys.
-/

namespace TraceArchive

/-- The value of an attribute. -/
inductive AttributeValue where
  | null
  | boolean (value : Bool)
  | number (value : Double)
  | string (value : String)
  | list (items : List AttributeValue)
  | map (entries : List (String × AttributeValue))
deriving Inhabited

/-- The attributes of a span, an event or a link. -/
abbrev Attributes := KeyMap AttributeValue

namespace AttributeValue

/-- The word for the kind of a value. -/
def kindName : AttributeValue → String
  | .null => "null"
  | .boolean _ => "bool"
  | .number _ => "number"
  | .string _ => "string"
  | .list _ => "list"
  | .map _ => "map"

mutual

/-- The number of levels of a value; a simple value has one. -/
def depth : AttributeValue → Nat
  | .list items => 1 + depthOfItems items
  | .map entries => 1 + depthOfEntries entries
  | _ => 1

/-- The greatest depth among values. -/
def depthOfItems : List AttributeValue → Nat
  | [] => 0
  | item :: rest => max (depth item) (depthOfItems rest)

/-- The greatest depth among the values of entries. -/
def depthOfEntries : List (String × AttributeValue) → Nat
  | [] => 0
  | (_, value) :: rest => max (depth value) (depthOfEntries rest)

end

/-! ## Stored form

A stored value is plain JSON whose numbers are all written as doubles. -/

mutual

/-- The stored form of a value. -/
def toStored : AttributeValue → Json
  | .null => .null
  | .boolean value => .boolean value
  | .number value => .number (.double value)
  | .string value => .string value
  | .list items => .list (storedItems items)
  | .map entries => .object (storedEntries entries)

/-- The stored forms of values. -/
def storedItems : List AttributeValue → List Json
  | [] => []
  | item :: rest => toStored item :: storedItems rest

/-- The stored forms of entries. -/
def storedEntries :
    List (String × AttributeValue) → List (String × Json)
  | [] => []
  | (key, value) :: rest => (key, toStored value) :: storedEntries rest

end

mutual

/-- The value of a stored form, whatever way its numbers are written. -/
def ofStored : Json → AttributeValue
  | .null => .null
  | .boolean value => .boolean value
  | .number value => .number value.toDouble
  | .string value => .string value
  | .list items => .list (ofStoredItems items)
  | .object entries => .map (ofStoredEntries entries)

/-- The values of stored forms. -/
def ofStoredItems : List Json → List AttributeValue
  | [] => []
  | item :: rest => ofStored item :: ofStoredItems rest

/-- The entries of stored forms. -/
def ofStoredEntries :
    List (String × Json) → List (String × AttributeValue)
  | [] => []
  | (key, value) :: rest => (key, ofStored value) :: ofStoredEntries rest

end

/-- Reads a value from its stored form. -/
def storedReader : Json.Reader AttributeValue := fun room document =>
  match Json.Reader.json room document with
  | .error error => .error error
  | .ok value => .ok (ofStored value)

end AttributeValue

end TraceArchive
