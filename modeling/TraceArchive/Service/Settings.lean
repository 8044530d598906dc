import TraceArchive.Check.Tree

/-!
# Settings of the service

What the service does with the spans of an update, how many attributes it
keeps, and how strictly it checks trees.
-/

namespace TraceArchive

/-! ## Updates -/

/-- What becomes of the stored spans when a trace in progress is submitted
again. -/
inductive UpdateMode where
  /-- The submitted spans take their place. -/
  | replace
  /-- The submitted spans are added after them. -/
  | append
deriving DecidableEq, Repr, Inhabited

namespace UpdateMode

/-- The name of a mode. -/
def name : UpdateMode → String
  | .replace => "replace"
  | .append => "append"

/-- The mode of a name, blanks around it and case aside, or the message about
an unknown one. -/
def ofText (text : String) : Except String UpdateMode :=
  let given := Text.lowered (Text.trimmed text)
  if given = "replace" then .ok .replace
  else if given = "append" then .ok .append
  else .error ("unknown update mode '" ++ given ++ "'")

end UpdateMode

/-! ## Attributes -/

/-- The sum of two counts, or the greatest count if the sum is beyond it. -/
def addSaturated (count : UInt32) (more : Nat) : UInt32 :=
  UInt32.ofNat (min (count.toNat + more) (UInt32.size - 1))

/-- Who sees to the number of attributes. -/
inductive AttributePolicy where
  /-- Clients do: attributes and counts are kept as they are. -/
  | trustClient
  /-- The service does: it keeps that many attributes of each map. -/
  | enforce (maximum : Nat)
deriving DecidableEq, Repr

namespace AttributePolicy

instance : Inhabited AttributePolicy := ⟨.trustClient⟩

/-- What is left of a map without its entries from the key at a position on, and
the count of what was dropped from it with these added. -/
def truncate (maximum : Nat) (attributes : Attributes) (dropped : UInt32) :
    Attributes × UInt32 :=
  match attributes.keys[maximum]? with
  | none => (attributes, dropped)
  | some firstRemoved =>
      let parts := attributes.splitAt firstRemoved
      (parts.1, addSaturated dropped parts.2.size)

/-- The event with the first attributes in key order; the others are counted
as dropped. -/
def cutEvent (maximum : Nat) (event : SpanEvent) : SpanEvent :=
  let cut := truncate maximum event.attributes event.droppedAttributes
  { event with attributes := cut.1, droppedAttributes := cut.2 }

/-- The link with the first attributes in key order; the others are counted as
dropped. -/
def cutLink (maximum : Nat) (link : SpanLink) : SpanLink :=
  let cut := truncate maximum link.attributes link.droppedAttributes
  { link with attributes := cut.1, droppedAttributes := cut.2 }

/-- The span with the first attributes in key order, its events and links
likewise; the others are counted as dropped. -/
def cutSpan (maximum : Nat) (span : Span) : Span :=
  let cut := truncate maximum span.attributes span.droppedAttributes
  { span with
    attributes := cut.1
    droppedAttributes := cut.2
    events := span.events.map (cutEvent maximum)
    links := span.links.map (cutLink maximum) }

/-- Applies the policy to spans. -/
def apply (policy : AttributePolicy) (spans : List Span) : List Span :=
  match policy with
  | .trustClient => spans
  | .enforce maximum => spans.map (cutSpan maximum)

end AttributePolicy

/-! ## All settings -/

/-- The settings of a service. -/
structure Settings where
  validation : Check.Policy := .lenientInProgress
  updateMode : UpdateMode := .replace
  attributes : AttributePolicy := .trustClient
deriving DecidableEq, Repr

instance : Inhabited Settings := ⟨{}⟩

end TraceArchive
