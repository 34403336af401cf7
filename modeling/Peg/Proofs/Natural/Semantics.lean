import Peg.Position

/-!
# The natural semantics of parsing expression grammars

Derivations relate a pattern and an input to the number of steps taken and to an outcome: the part
of the input that the pattern consumes, or failure. They know nothing of positions, states, nodes or
fuel. Here they are given rule by rule, and shown to be determined by the pattern and the input.
-/
namespace Peg

/-- A parsing expression over characters, with all operators binary or unary. -/
inductive Pattern where
  /-- The empty text. -/
  | empty
  /-- One character of a class. -/
  | terminal (accept : Char → Bool)
  /-- What the grammar assigns to a name. -/
  | nonterminal (name : String)
  /-- One pattern after another. -/
  | sequence (first second : Pattern)
  /-- The second pattern where the first one fails. -/
  | choice (first second : Pattern)
  /-- A pattern as often as it matches. -/
  | star (body : Pattern)
  /-- The empty text where a pattern fails. -/
  | not (body : Pattern)

/-- What a grammar assigns to names. -/
abbrev PatternGrammar := String → Option Pattern

/-- The pattern derives the outcome from the input in so many steps. The outcome is the part of the
input that is consumed, or nothing for failure. -/
inductive Derives (grammar : PatternGrammar) :
    Pattern → List Char → Nat → Option (List Char) → Prop
  | empty {input : List Char} : Derives grammar .empty input 1 (some [])
  | terminal {accept : Char → Bool} {c : Char} {rest : List Char} :
      accept c = true → Derives grammar (.terminal accept) (c :: rest) 1 (some [c])
  | terminalOther {accept : Char → Bool} {c : Char} {rest : List Char} :
      accept c = false → Derives grammar (.terminal accept) (c :: rest) 1 none
  | terminalEnd {accept : Char → Bool} : Derives grammar (.terminal accept) [] 1 none
  | nonterminal {name : String} {body : Pattern} {input : List Char} {steps : Nat}
      {outcome : Option (List Char)} :
      grammar name = some body → Derives grammar body input steps outcome →
      Derives grammar (.nonterminal name) input (steps + 1) outcome
  | sequence {first second : Pattern} {text more rest : List Char} {early late : Nat} :
      Derives grammar first (text ++ (more ++ rest)) early (some text) →
      Derives grammar second (more ++ rest) late (some more) →
      Derives grammar (.sequence first second) (text ++ (more ++ rest)) (early + late + 1)
        (some (text ++ more))
  | sequenceFirst {first second : Pattern} {input : List Char} {early : Nat} :
      Derives grammar first input early none →
      Derives grammar (.sequence first second) input (early + 1) none
  | sequenceSecond {first second : Pattern} {text rest : List Char} {early late : Nat} :
      Derives grammar first (text ++ rest) early (some text) →
      Derives grammar second rest late none →
      Derives grammar (.sequence first second) (text ++ rest) (early + late + 1) none
  | choiceFirst {first second : Pattern} {input text : List Char} {early : Nat} :
      Derives grammar first input early (some text) →
      Derives grammar (.choice first second) input (early + 1) (some text)
  | choiceSecond {first second : Pattern} {input : List Char} {early late : Nat}
      {outcome : Option (List Char)} :
      Derives grammar first input early none → Derives grammar second input late outcome →
      Derives grammar (.choice first second) input (early + late + 1) outcome
  | starMore {body : Pattern} {text more rest : List Char} {early late : Nat} :
      Derives grammar body (text ++ (more ++ rest)) early (some text) →
      Derives grammar (.star body) (more ++ rest) late (some more) →
      Derives grammar (.star body) (text ++ (more ++ rest)) (early + late + 1) (some (text ++ more))
  | starEnd {body : Pattern} {input : List Char} {early : Nat} :
      Derives grammar body input early none →
      Derives grammar (.star body) input (early + 1) (some [])
  | notFound {body : Pattern} {input text : List Char} {early : Nat} :
      Derives grammar body input early (some text) →
      Derives grammar (.not body) input (early + 1) none
  | notMissing {body : Pattern} {input : List Char} {early : Nat} :
      Derives grammar body input early none →
      Derives grammar (.not body) input (early + 1) (some [])

namespace Derives

variable {grammar : PatternGrammar}

/-- What is consumed stands at the front of the input. -/
theorem consumes {pattern : Pattern} {input text : List Char} {steps : Nat}
    {outcome : Option (List Char)} (derives : Derives grammar pattern input steps outcome)
    (consumed : outcome = some text) : ∃ rest, input = text ++ rest := by
  induction derives generalizing text with
  | empty => cases consumed; exact ⟨_, rfl⟩
  | terminal => cases consumed; exact ⟨_, rfl⟩
  | terminalOther | terminalEnd | sequenceFirst | sequenceSecond | notFound => cases consumed
  | nonterminal _ _ ih => exact ih consumed
  | sequence | starMore => cases consumed; exact ⟨_, (List.append_assoc _ _ _).symm⟩
  | choiceFirst _ ih => exact ih consumed
  | choiceSecond _ _ _ ih => exact ih consumed
  | starEnd | notMissing => cases consumed; exact ⟨_, rfl⟩

/-- A derivation is determined by the pattern and the input. -/
theorem unique {pattern : Pattern} {input : List Char} {steps others : Nat}
    {outcome other : Option (List Char)} (derives : Derives grammar pattern input steps outcome)
    (also : Derives grammar pattern input others other) : steps = others ∧ outcome = other := by
  induction derives generalizing others other with
  | empty =>
    cases also
    exact ⟨rfl, rfl⟩
  | terminal accepted =>
    cases also with
    | terminal => exact ⟨rfl, rfl⟩
    | terminalOther refused => rw [accepted] at refused; cases refused
  | terminalOther refused =>
    cases also with
    | terminal accepted => rw [refused] at accepted; cases accepted
    | terminalOther => exact ⟨rfl, rfl⟩
  | terminalEnd =>
    cases also
    exact ⟨rfl, rfl⟩
  | nonterminal defined _ ih =>
    cases also with
    | nonterminal redefined body =>
      cases Option.some.inj (defined.symm.trans redefined)
      obtain ⟨rfl, rfl⟩ := ih body
      exact ⟨rfl, rfl⟩
  | @sequence _ _ text more rest _ _ _ _ ihFirst ihSecond =>
    -- The first part consumes the same text on both sides, which leaves the same to the second.
    generalize front : text ++ (more ++ rest) = input at also
    cases also with
    | sequence first second =>
      obtain ⟨rfl, same⟩ := ihFirst (front ▸ first)
      cases same
      have back := List.append_cancel_left front
      obtain ⟨rfl, same⟩ := ihSecond (back ▸ second)
      cases same
      exact ⟨rfl, rfl⟩
    | sequenceFirst first =>
      obtain ⟨_, same⟩ := ihFirst (front ▸ first)
      cases same
    | sequenceSecond first second =>
      obtain ⟨_, same⟩ := ihFirst (front ▸ first)
      cases same
      obtain ⟨_, same⟩ := ihSecond (List.append_cancel_left front ▸ second)
      cases same
  | sequenceFirst _ ih =>
    cases also with
    | sequenceFirst first =>
      obtain ⟨rfl, _⟩ := ih first
      exact ⟨rfl, rfl⟩
    | sequence first | sequenceSecond first =>
      obtain ⟨_, same⟩ := ih first
      cases same
  | @sequenceSecond _ _ text rest _ _ _ _ ihFirst ihSecond =>
    generalize front : text ++ rest = input at also
    cases also with
    | sequence first second =>
      obtain ⟨_, same⟩ := ihFirst (front ▸ first)
      cases same
      obtain ⟨_, same⟩ := ihSecond (List.append_cancel_left front ▸ second)
      cases same
    | sequenceFirst first =>
      obtain ⟨_, same⟩ := ihFirst (front ▸ first)
      cases same
    | sequenceSecond first second =>
      obtain ⟨rfl, same⟩ := ihFirst (front ▸ first)
      cases same
      obtain ⟨rfl, _⟩ := ihSecond (List.append_cancel_left front ▸ second)
      exact ⟨rfl, rfl⟩
  | choiceFirst _ ih =>
    cases also with
    | choiceFirst first =>
      obtain ⟨rfl, same⟩ := ih first
      exact ⟨rfl, same⟩
    | choiceSecond first =>
      obtain ⟨_, same⟩ := ih first
      cases same
  | choiceSecond _ _ ihFirst ihSecond =>
    cases also with
    | choiceFirst first =>
      obtain ⟨_, same⟩ := ihFirst first
      cases same
    | choiceSecond first second =>
      obtain ⟨rfl, _⟩ := ihFirst first
      obtain ⟨rfl, same⟩ := ihSecond second
      exact ⟨rfl, same⟩
  | @starMore _ text more rest _ _ _ _ ihBody ihStar =>
    generalize front : text ++ (more ++ rest) = input at also
    cases also with
    | starMore body star =>
      obtain ⟨rfl, same⟩ := ihBody (front ▸ body)
      cases same
      obtain ⟨rfl, same⟩ := ihStar (List.append_cancel_left front ▸ star)
      cases same
      exact ⟨rfl, rfl⟩
    | starEnd body =>
      obtain ⟨_, same⟩ := ihBody (front ▸ body)
      cases same
  | starEnd _ ih =>
    cases also with
    | starMore body =>
      obtain ⟨_, same⟩ := ih body
      cases same
    | starEnd body =>
      obtain ⟨rfl, _⟩ := ih body
      exact ⟨rfl, rfl⟩
  | notFound _ ih =>
    cases also with
    | notFound body =>
      obtain ⟨rfl, _⟩ := ih body
      exact ⟨rfl, rfl⟩
    | notMissing body =>
      obtain ⟨_, same⟩ := ih body
      cases same
  | notMissing _ ih =>
    cases also with
    | notFound body =>
      obtain ⟨_, same⟩ := ih body
      cases same
    | notMissing body =>
      obtain ⟨rfl, _⟩ := ih body
      exact ⟨rfl, rfl⟩

end Derives

end Peg
