import TraceArchive.Http.Server

/-!
# Formats that clients accept

What a client accepts is compared with the names of the formats in two places:
without regard to letter case to tell which format it is, but letter by letter
to tell whether one is named at all. So a name in capital letters is passed
over. The main statement is `responseFormat_of_accepted`, and
`unheard_of_capitals` shows a client that is passed over.
-/

namespace TraceArchive

namespace Wire.Format

theorem mentions_iff {word text : List Char} :
    mentions word text = true ↔ word <:+: text := by
  induction text with
  | nil => rw [mentions, List.isEmpty_iff, List.infix_nil]
  | cons character rest inductionHypothesis =>
      rw [mentions, Bool.or_eq_true, List.isPrefixOf_iff_prefix,
        inductionHypothesis, List.infix_cons_iff]

/-- Whether a text names a format, letter by letter. -/
def IsNamedIn (text : String) : Prop :=
  "protobuf".toList <:+: text.toList ∨ "json".toList <:+: text.toList

instance : DecidablePred IsNamedIn :=
  fun _ => inferInstanceAs (Decidable (_ ∨ _))

/-- The names are in lower case, so that they are still there in lower case. -/
theorem IsNamedIn.lowered
    {text : String} (isNamed : IsNamedIn text) :
    IsNamedIn (Text.lowered text) := by
  have protobuf : "protobuf".toList.map Char.toLower = "protobuf".toList := by
    decide
  have json : "json".toList.map Char.toLower = "json".toList := by
    decide
  have inLower :
      (Text.lowered text).toList = text.toList.map Char.toLower :=
    String.toList_ofList
  rw [IsNamedIn, inLower, ← protobuf, ← json]
  exact
    isNamed.imp (fun isInfix => isInfix.map Char.toLower)
      (fun isInfix => isInfix.map Char.toLower)

/-- Which format is accepted does not depend on letter case. -/
theorem ofAccept_congr
    {left right : String} (same : Text.lowered left = Text.lowered right) :
    ofAccept (some left) = ofAccept (some right) := by
  rw [ofAccept, ofAccept, same]

end Wire.Format

namespace Http.Request

open Wire (Format)

variable {request : Request} {accepted : String}

theorem responseFormat_eq
    (accepts : request.header? "accept" = some accepted) (own : Format) :
    request.responseFormat own =
      if Format.IsNamedIn accepted then Format.ofAccept (some accepted)
      else own := by
  have isNamed :
      (Format.mentions "protobuf".toList accepted.toList ||
          Format.mentions "json".toList accepted.toList) = true ↔
        Format.IsNamedIn accepted := by
    rw [Bool.or_eq_true, Format.mentions_iff, Format.mentions_iff,
      Format.IsNamedIn]
  rw [responseFormat, accepts]
  exact ite_congr (propext isNamed) (fun _ => rfl) (fun _ => rfl)

/-- The format of the response is what the client accepts if that names a format
letter by letter, and else the format at hand. This is what it would be without
regard to letter case exactly if a name in any case is also there in lower case,
or stands for the format at hand. Two clients that accept the same but for
letter case get responses in the same format exactly if both name a format
letter by letter or neither does, or if the name stands for the format at
hand. -/
theorem responseFormat_of_accepted
    (accepts : request.header? "accept" = some accepted) (own : Format) :
    (request.responseFormat own =
        if Format.IsNamedIn accepted then Format.ofAccept (some accepted)
        else own) ∧
      ((request.responseFormat own =
          if Format.IsNamedIn (Text.lowered accepted) then
            Format.ofAccept (some accepted)
          else own) ↔
        (Format.IsNamedIn (Text.lowered accepted) →
          Format.IsNamedIn accepted ∨
            Format.ofAccept (some accepted) = own)) ∧
      ∀ (other : Request) (spelling : String),
        other.header? "accept" = some spelling →
        Text.lowered spelling = Text.lowered accepted →
          (other.responseFormat own = request.responseFormat own ↔
            (Format.IsNamedIn spelling ↔ Format.IsNamedIn accepted) ∨
              Format.ofAccept (some accepted) = own) := by
  rw [responseFormat_eq accepts]
  refine ⟨rfl, ?_, ?_⟩
  · by_cases isNamed : Format.IsNamedIn accepted
    · rw [if_pos isNamed, if_pos isNamed.lowered]
      exact iff_of_true rfl fun _ => Or.inl isNamed
    · rw [if_neg isNamed]
      by_cases inLower : Format.IsNamedIn (Text.lowered accepted)
      · simp only [inLower, isNamed, if_true, false_or, true_implies,
          eq_comm]
      · simp only [inLower, if_false, false_implies]
  · intro other spelling otherAccepts sameLowered
    rw [responseFormat_eq otherAccepts, Format.ofAccept_congr sameLowered]
    by_cases isNamed : Format.IsNamedIn accepted
    · by_cases isOther : Format.IsNamedIn spelling
      · simp only [isNamed, isOther, if_true, iff_self, true_or]
      · simp only [isNamed, isOther, if_true, if_false, false_iff,
          not_true_eq_false, false_or, eq_comm]
    · by_cases isOther : Format.IsNamedIn spelling
      · simp only [isNamed, isOther, if_true, if_false, iff_false,
          not_true_eq_false, false_or]
      · simp only [isNamed, isOther, if_false, iff_self, true_or]

/-- A request for a trace by a client that accepts something. -/
def accepting (accepted : String) : Request where
  method := .get
  target := "/tracing/traces/0a"
  headers := [("Accept", accepted)]
  body := []

/-- A client that names the binary form in mixed letters and JSON in lower case
gets the binary form, as it would without regard to letter case. -/
theorem responseFormat_of_mixedLetters :
    (accepting "application/X-Protobuf, application/json").responseFormat
        .json =
      .protobuf ∧
    Format.IsNamedIn
      (Text.lowered "application/X-Protobuf, application/json") := by
  have accepts :
      (accepting "application/X-Protobuf, application/json").header?
          "accept" =
        some "application/X-Protobuf, application/json" := by
    decide +kernel
  have inLower :
      Format.IsNamedIn
        (Text.lowered "application/X-Protobuf, application/json") := by
    decide +kernel
  have isNamed :
      Format.IsNamedIn "application/X-Protobuf, application/json" := by
    decide +kernel
  have asked :=
    (responseFormat_of_accepted accepts .json).2.1.mpr
      fun _ => Or.inl isNamed
  rw [if_pos inLower] at asked
  exact ⟨asked.trans (by decide +kernel), inLower⟩

/-- A client that accepts nothing but the binary form, in capital letters, is
sent JSON; in small letters it is sent the binary form. -/
theorem unheard_of_capitals :
    (accepting "APPLICATION/X-PROTOBUF").header? "accept" =
        some "APPLICATION/X-PROTOBUF" ∧
      Format.IsNamedIn (Text.lowered "APPLICATION/X-PROTOBUF") ∧
        Format.ofAccept (some "APPLICATION/X-PROTOBUF") = .protobuf ∧
          (accepting "APPLICATION/X-PROTOBUF").responseFormat .json = .json ∧
            (accepting "application/x-protobuf").responseFormat .json =
              .protobuf := by
  decide +kernel

end Http.Request

end TraceArchive
