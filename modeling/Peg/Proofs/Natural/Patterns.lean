import Peg.Engine.Action
import Peg.Proofs.Expr.Texts
import Peg.Proofs.Natural.Positions

/-!
# Expressions as patterns

How the standard expressions are read as patterns. A text is the sequence of its characters,
sequences and choices nest to the right, an optional part is a choice between it and the empty text,
a positive lookahead is a predicate on a predicate, and a repetition with bounds is unfolded: first
as many copies as it needs, then a repetition without bounds or as many optional copies, one inside
the other, as it may still take. Rules stand for their bodies, and references are the nonterminals.
-/
namespace Peg

namespace Pattern

/-- The pattern that always fails. -/
def never : Pattern := .not .empty

/-- A pattern or the empty text. -/
def optional (body : Pattern) : Pattern := .choice body .empty

/-- The characters in a row. -/
def chars : List Char → Pattern
  | [] => .empty
  | c :: rest => .sequence (.terminal (· == c)) (chars rest)

/-- Some patterns in a row. -/
def sequenceOf (first : Pattern) : List Pattern → Pattern
  | [] => first
  | next :: rest => .sequence first (sequenceOf next rest)

/-- The first of some patterns that matches. -/
def choiceOf (first : Pattern) : List Pattern → Pattern
  | [] => first
  | next :: rest => .choice first (choiceOf next rest)

/-- A pattern as often as it matches, but not more often than so many times. -/
def atMost (body : Pattern) : (max : Nat) → Pattern
  | 0 => .empty
  | max + 1 => optional (.sequence body (atMost body max))

/-- A pattern as often as it matches, at least `min` and at most `max` times. -/
def repeated (body : Pattern) : (min : Nat) → (max : Option Nat) → Pattern
  | 0, none => .star body
  | 0, some max => atMost body max
  | min + 1, none => .sequence body (repeated body min none)
  | _ + 1, some 0 => never
  | min + 1, some (max + 1) => .sequence body (repeated body min (some max))

end Pattern

/-- The pattern of a terminal. Terminals that look at more than the next characters have none. -/
def Terminal.pattern : Terminal → Pattern
  | literal text => .chars text.toList
  | charRange low high => .terminal fun c => low ≤ c && c ≤ high
  | any => .terminal fun _ => true
  | empty => .empty
  | _ => .never

namespace Expr

mutual

/-- The pattern of an expression. Expressions that are not standard have none. -/
def pattern : Expr → Pattern
  | terminal leaf => leaf.pattern
  | seq first rest => .sequenceOf first.pattern (patterns rest)
  | choice first rest => .choiceOf first.pattern (patterns rest)
  | opt body => .optional body.pattern
  | rep body min max => .repeated body.pattern min max
  | positive body => .not (.not body.pattern)
  | negative body => .not body.pattern
  | rule _ _ _ body => body.pattern
  | ref name => .nonterminal name
  | _ => .never

/-- The patterns of some expressions. -/
def patterns : List Expr → List Pattern
  | [] => []
  | expr :: rest => expr.pattern :: patterns rest

end

end Expr

/-- Between one and three letters: one, and after it up to two more, the last only after the
other. -/
example : (Expr.rep (.literal "a") 1 (some 3)).pattern =
    .sequence (.chars ['a'])
      (.optional (.sequence (.chars ['a']) (.optional (.sequence (.chars ['a']) .empty)))) := rfl

/-- The terminals that only look at the next characters. -/
inductive Terminal.Standard : Terminal → Prop
  | literal (text : String) : Standard (.literal text)
  | charRange (low high : Char) : Standard (.charRange low high)
  | any : Standard .any
  | empty : Standard .empty
  | alwaysFail : Standard .alwaysFail

/-- The expressions that have a pattern and refer to some names only. -/
inductive Expr.Standard (names : String → Prop) : Expr → Prop
  | terminal {leaf : Terminal} : leaf.Standard → Standard names (.terminal leaf)
  | seq {first : Expr} {rest : List Expr} :
      Standard names first → (∀ expr ∈ rest, Standard names expr) → Standard names (.seq first rest)
  | choice {first : Expr} {rest : List Expr} :
      Standard names first → (∀ expr ∈ rest, Standard names expr) →
      Standard names (.choice first rest)
  | opt {body : Expr} : Standard names body → Standard names (.opt body)
  | rep {body : Expr} (min : Nat) (max : Option Nat) :
      Standard names body → Standard names (.rep body min max)
  | positive {body : Expr} : Standard names body → Standard names (.positive body)
  | negative {body : Expr} : Standard names body → Standard names (.negative body)
  | rule (tag : Nat) (name : String) {kind : RuleKind} {body : Expr} :
      kind ≠ .nonAtomic → Standard names body → Standard names (.rule tag name kind body)
  | ref {name : String} : names name → Standard names (.ref name)

/-- The text of a standard expression shows no lazy one. -/
theorem Expr.Standard.shownCells {names : String → Prop} {expr : Expr}
    (standard : expr.Standard names) : expr.shownCells = [] := by
  induction standard with
  | terminal | rule | ref => rfl
  | seq _ _ first rest | choice _ _ first rest =>
    rw [Expr.shownCells, first, shownCellsOf_eq_nil rest]
    rfl
  | opt _ body | rep _ _ _ body | positive _ body | negative _ body => exact body

/-- The grammar that a table of rules stands for. -/
def Env.grammar (env : Env) : PatternGrammar := fun name => (env.rules.lookup name).map Expr.pattern

/-! ### Texts -/

namespace Input

/-- The text goes on with what stands at the front of its rest. -/
theorem continuesWith_iff_drop (input : Input) (place : Nat) (text : List Char) :
    input.continuesWith place text = true ↔
      ∃ tail, input.chars.toList.drop place = text ++ tail := by
  induction text generalizing place with
  | nil => exact ⟨fun _ => ⟨_, rfl⟩, fun _ => rfl⟩
  | cons c rest ih =>
    have next : input.chars[place]? = (input.chars.toList.drop place).head? := by simp
    have later : input.chars.toList.drop (place + 1) = (input.chars.toList.drop place).tail := by
      simp
    rw [continuesWith, Bool.and_eq_true, beq_iff_eq, ih, next, later]
    -- What is asked for now concerns the characters from the place on alone.
    cases input.chars.toList.drop place with
    | nil => simp
    | cons d more => simp

end Input

namespace Position

variable {here stop : Position} {text : String}

/-- The position that is answered is the one up to which the text is read. -/
theorem reads_of_matchLiteral (found : here.matchLiteral text = some stop) :
    here.Reads text.toList stop := by
  unfold matchLiteral at found
  split at found
  next continues =>
    obtain ⟨tail, front⟩ := (here.input.continuesWith_iff_drop _ _).mp continues
    obtain ⟨other, reads, _⟩ := exists_reads front
    cases found
    have reached : other = ⟨here.input, here.offset + text.toList.length,
        Input.le_size_of_continuesWith here.offset_le continues⟩ :=
      eq_of_offset reads.input_eq reads.offset_eq
    exact reached ▸ reads
  next => cases found

theorem not_front_of_matchLiteral (missed : here.matchLiteral text = none) (tail : List Char) :
    here.rest ≠ text.toList ++ tail := by
  unfold matchLiteral at missed
  split at missed
  next => cases missed
  next differs =>
    exact fun front => differs ((here.input.continuesWith_iff_drop _ _).mpr ⟨tail, front⟩)

end Position

namespace Derives

theorem chars_found (grammar : PatternGrammar) (text tail : List Char) :
    ∃ steps, Derives grammar (.chars text) (text ++ tail) steps (some text) := by
  induction text with
  | nil => exact ⟨1, .empty⟩
  | cons c rest ih =>
    obtain ⟨steps, derives⟩ := ih
    have first : Derives grammar (.terminal (· == c)) ([c] ++ (rest ++ tail)) 1 (some [c]) :=
      .terminal (beq_self_eq_true c)
    exact ⟨1 + steps + 1, .sequence first derives⟩

theorem chars_missing (grammar : PatternGrammar) {text input : List Char}
    (absent : ∀ tail, input ≠ text ++ tail) :
    ∃ steps, Derives grammar (.chars text) input steps none := by
  induction text generalizing input with
  | nil => exact absurd rfl (absent input)
  | cons c rest ih =>
    cases input with
    | nil => exact ⟨2, .sequenceFirst .terminalEnd⟩
    | cons d more =>
      cases same : d == c with
      | false => exact ⟨2, .sequenceFirst (.terminalOther same)⟩
      | true =>
        -- The first character agrees, so that the others are to blame.
        have equal : d = c := eq_of_beq same
        have later : ∀ tail, more ≠ rest ++ tail := fun tail whole =>
          absent tail (by rw [equal, whole, List.cons_append])
        obtain ⟨steps, derives⟩ := ih later
        have first : Derives grammar (.terminal (· == c)) ([d] ++ more) 1 (some [d]) :=
          .terminal same
        exact ⟨1 + steps + 1, .sequenceSecond first derives⟩

end Derives

namespace Parses

variable {grammar : PatternGrammar} {here : Position} {steps : Nat} {stop : Option Position}

/-- The pattern of a text matches where the text comes next. -/
theorem chars (grammar : PatternGrammar) (text : String) (here : Position) :
    ∃ steps, Parses grammar (.chars text.toList) here steps (here.matchLiteral text) := by
  cases found : here.matchLiteral text with
  | some stop =>
    have reads := Position.reads_of_matchLiteral found
    obtain ⟨steps, derives⟩ := Derives.chars_found grammar text.toList stop.rest
    rw [← reads.rest_eq] at derives
    exact ⟨steps, of_reads derives reads⟩
  | none =>
    obtain ⟨steps, derives⟩ :=
      Derives.chars_missing grammar (Position.not_front_of_matchLiteral found)
    exact ⟨steps, failure_iff.mpr derives⟩

theorem never (here : Position) : Parses grammar .never here 2 none :=
  failure_iff.mpr (.notFound .empty)

/-! ### Repetitions -/

/-- An optional pattern ends where its body does, or stays where it is. -/
theorem optional_iff {body : Pattern} :
    Parses grammar (.optional body) here steps stop ↔
      (∃ early final, steps = early + 1 ∧ stop = some final ∧
          Parses grammar body here early (some final)) ∨
        ∃ early, steps = early + 2 ∧ stop = some here ∧ Parses grammar body here early none := by
  unfold Pattern.optional
  rw [choice_iff]
  constructor
  · rintro (first | ⟨early, late, rfl, failed, rest⟩)
    · exact .inl first
    · obtain ⟨rfl, rfl⟩ := empty_iff.mp rest
      exact .inr ⟨early, rfl, rfl, failed⟩
  · rintro (first | ⟨early, rfl, rfl, failed⟩)
    · exact .inl first
    · exact .inr ⟨early, 1, rfl, failed, empty_iff.mpr ⟨rfl, rfl⟩⟩

theorem atMost_succeeds {body : Pattern} {max : Nat}
    (parses : Parses grammar (.atMost body max) here steps stop) :
    ∃ final, stop = some final := by
  cases max with
  | zero => exact ⟨here, (empty_iff.mp parses).2⟩
  | succ max =>
    rcases optional_iff.mp parses with ⟨_, final, _, rfl, _⟩ | ⟨_, _, rfl, _⟩
    · exact ⟨final, rfl⟩
    · exact ⟨here, rfl⟩

theorem star_succeeds {body : Pattern} (parses : Parses grammar (.star body) here steps stop) :
    ∃ final, stop = some final := by
  rcases star_iff.mp parses with ⟨_, _, rfl, _⟩ | ⟨_, _, _, final, _, rfl, _⟩
  · exact ⟨here, rfl⟩
  · exact ⟨final, rfl⟩

/-- Where a repetition ends that finds no further match and still needs some number of them. -/
def exit (here : Position) (missing : Nat) : Option Position :=
  if missing = 0 then some here else none

variable {body : Pattern}

/-- A repetition that may take no more matches ends at once. -/
theorem repeated_full (grammar : PatternGrammar) (body : Pattern) (here : Position) (min : Nat) :
    ∃ steps, Parses grammar (.repeated body min (some 0)) here steps (exit here min) := by
  cases min with
  | zero => exact ⟨1, empty_iff.mpr ⟨rfl, rfl⟩⟩
  | succ min => exact ⟨2, never here⟩

/-- A repetition ends where its body fails. -/
theorem repeated_last {min : Nat} {max : Option Nat} {early : Nat} (room : max ≠ some 0)
    (failed : Parses grammar body here early none) :
    ∃ steps, Parses grammar (.repeated body min max) here steps (exit here min) := by
  match min, max with
  | 0, none => exact ⟨_, star_iff.mpr (.inl ⟨early, rfl, rfl, failed⟩)⟩
  | _, some 0 => exact absurd rfl room
  | 0, some (max + 1) =>
    have inner : Parses grammar (.sequence body (.atMost body max)) here (early + 1) none :=
      sequence_iff.mpr (.inl ⟨early, rfl, rfl, failed⟩)
    exact ⟨_, optional_iff.mpr (.inr ⟨_, rfl, rfl, inner⟩)⟩
  | min + 1, none => exact ⟨_, sequence_iff.mpr (.inl ⟨early, rfl, rfl, failed⟩)⟩
  | min + 1, some (max + 1) => exact ⟨_, sequence_iff.mpr (.inl ⟨early, rfl, rfl, failed⟩)⟩

/-- After a match of its body, a repetition goes on with one match less to come. -/
theorem repeated_more {min : Nat} {max : Option Nat} {early late : Nat} {middle : Position}
    (room : max ≠ some 0) (found : Parses grammar body here early (some middle))
    (others : Parses grammar (.repeated body (min - 1) (max.map (· - 1))) middle late stop) :
    ∃ steps, Parses grammar (.repeated body min max) here steps stop := by
  match min, max with
  | 0, none =>
    -- Once enough matches are found, the rest cannot fail.
    obtain ⟨final, rfl⟩ := star_succeeds others
    exact ⟨_, star_iff.mpr (.inr ⟨early, late, middle, final, rfl, rfl, found, others⟩)⟩
  | _, some 0 => exact absurd rfl room
  | 0, some (max + 1) =>
    obtain ⟨final, rfl⟩ := atMost_succeeds others
    have inner : Parses grammar (.sequence body (.atMost body max)) here (early + late + 1)
        (some final) := sequence_iff.mpr (.inr ⟨early, late, middle, rfl, found, others⟩)
    exact ⟨_, optional_iff.mpr (.inl ⟨_, final, rfl, rfl, inner⟩)⟩
  | min + 1, none =>
    exact ⟨_, sequence_iff.mpr (.inr ⟨early, late, middle, rfl, found, others⟩)⟩
  | min + 1, some (max + 1) =>
    exact ⟨_, sequence_iff.mpr (.inr ⟨early, late, middle, rfl, found, others⟩)⟩

/-- A repetition that may take a match either ends with its body or goes on after it. -/
theorem repeated_cases {min : Nat} {max : Option Nat} (room : max ≠ some 0)
    (parses : Parses grammar (.repeated body min max) here steps stop) :
    (∃ early, early < steps ∧ Parses grammar body here early none ∧ stop = exit here min) ∨
      ∃ early late middle, early < steps ∧ late < steps ∧
        Parses grammar body here early (some middle) ∧
        Parses grammar (.repeated body (min - 1) (max.map (· - 1))) middle late stop := by
  match min, max with
  | 0, none =>
    rcases star_iff.mp parses with ⟨early, rfl, rfl, failed⟩ |
      ⟨early, late, middle, final, rfl, rfl, found, others⟩
    · exact .inl ⟨early, by omega, failed, rfl⟩
    · exact .inr ⟨early, late, middle, by omega, by omega, found, others⟩
  | _, some 0 => exact absurd rfl room
  | 0, some (max + 1) =>
    -- The body and what follows it are optional together.
    rcases optional_iff.mp parses with ⟨inner, final, rfl, rfl, whole⟩ | ⟨inner, rfl, rfl, failed⟩
    · rcases sequence_iff.mp whole with ⟨_, _, ⟨⟩, _⟩ | ⟨early, late, middle, rfl, found, others⟩
      exact .inr ⟨early, late, middle, by omega, by omega, found, others⟩
    · rcases sequence_iff.mp failed with ⟨early, rfl, _, missing⟩ |
        ⟨early, late, middle, rfl, found, others⟩
      · exact .inl ⟨early, by omega, missing, rfl⟩
      · -- What follows the body is optional throughout, so that it cannot have failed.
        obtain ⟨final, impossible⟩ := atMost_succeeds others
        cases impossible
  | min + 1, none | min + 1, some (max + 1) =>
    rcases sequence_iff.mp parses with ⟨early, rfl, rfl, failed⟩ |
      ⟨early, late, middle, rfl, found, others⟩
    · exact .inl ⟨early, by omega, failed, rfl⟩
    · exact .inr ⟨early, late, middle, by omega, by omega, found, others⟩

end Parses

end Peg
