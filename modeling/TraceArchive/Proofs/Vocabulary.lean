import TraceArchive.Proofs.Json.Text
import TraceArchive.Vocabulary

/-!
# Words are read from their names and numbers
-/

namespace TraceArchive

/-- A vocabulary whose words are found under their names and their numbers,
which have 32 bits. -/
class Vocabulary.Lawful (Word : Type) [Vocabulary Word] : Prop where
  ofText?_name : ∀ word : Word, ofText? (name word) = some word
  ofNumber?_number : ∀ word : Word, ofNumber? (number word) = some word
  number_inRange :
    ∀ word : Word,
      -(UInt32.size / 2 : Nat) ≤ number word ∧
        number word < (UInt32.size / 2 : Nat)

namespace Vocabulary

instance : Lawful SpanKind where
  ofText?_name word := by cases word <;> decide
  ofNumber?_number word := by cases word <;> rfl
  number_inRange word := by cases word <;> decide

instance : Lawful StatusCode where
  ofText?_name word := by cases word <;> decide
  ofNumber?_number word := by cases word <;> rfl
  number_inRange word := by cases word <;> decide

instance : Lawful TraceState where
  ofText?_name word := by cases word <;> decide
  ofNumber?_number word := by cases word <;> rfl
  number_inRange word := by cases word <;> decide

instance : Lawful LocationKind where
  ofText?_name word := by cases word <;> decide
  ofNumber?_number word := by cases word <;> rfl
  number_inRange word := by cases word <;> decide

theorem reader_toJson
    {Word : Type} [Vocabulary Word] [Lawful Word] (room : Nat) (word : Word) :
    reader room (toJson word).document = .ok word := by
  simp only [toJson, Json.document, reader, Lawful.ofText?_name]

end Vocabulary

theorem SpanKind.number_of_ofNumber?
    (number : Int) (kind : SpanKind)
    (isKind : Vocabulary.ofNumber? number = some kind) :
    Vocabulary.number kind = number := by
  simp only [Vocabulary.ofNumber?] at isKind
  split at isKind
  all_goals
    cases isKind
    try rfl

theorem StatusCode.number_of_ofNumber?
    (number : Int) (code : StatusCode)
    (isCode : Vocabulary.ofNumber? number = some code) :
    Vocabulary.number code = number := by
  simp only [Vocabulary.ofNumber?] at isCode
  split at isCode
  all_goals
    cases isCode
    try rfl

end TraceArchive
