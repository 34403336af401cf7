import Peg.Proofs.Natural.Semantics

/-!
# Derivations at positions

A position of a text stands for what the text goes on with, and a later position for the part that
was read in between. Read this way, each pattern has one law that says how it parses at a position
in terms of how its parts do. The laws hold in both directions and keep the number of steps, so that
they serve to build derivations and to take them apart.
-/
namespace Peg

namespace Position

/-- The characters after a position. -/
def rest (here : Position) : List Char := here.input.chars.toList.drop here.offset

/-- Between the positions stands the text. -/
structure Reads (here : Position) (text : List Char) (stop : Position) : Prop where
  input_eq : stop.input = here.input
  offset_eq : stop.offset = here.offset + text.length
  rest_eq : here.rest = text ++ stop.rest

/-- The positions belong to one input, and the second one does not come before the first. -/
structure Precedes (here stop : Position) : Prop where
  input_eq : stop.input = here.input
  offset_le : here.offset ≤ stop.offset

theorem Precedes.refl (here : Position) : here.Precedes here := ⟨rfl, Nat.le_refl _⟩

theorem Precedes.trans {first second third : Position} (early : first.Precedes second)
    (late : second.Precedes third) : first.Precedes third :=
  ⟨late.input_eq.trans early.input_eq, Nat.le_trans early.offset_le late.offset_le⟩

theorem Reads.precedes {here stop : Position} {text : List Char} (reads : here.Reads text stop) :
    here.Precedes stop :=
  ⟨reads.input_eq, by rw [reads.offset_eq]; exact Nat.le_add_right _ _⟩

theorem eq_of_offset {a b : Position} (inputs : a.input = b.input) (offsets : a.offset = b.offset) :
    a = b := by
  cases a
  cases b
  cases inputs
  cases offsets
  rfl

theorem Reads.refl (here : Position) : here.Reads [] here := ⟨rfl, rfl, rfl⟩

theorem Reads.trans {first second third : Position} {text more : List Char}
    (early : first.Reads text second) (late : second.Reads more third) :
    first.Reads (text ++ more) third := by
  refine ⟨late.input_eq.trans early.input_eq, ?_, ?_⟩
  · rw [late.offset_eq, early.offset_eq, List.length_append, Nat.add_assoc]
  · rw [early.rest_eq, late.rest_eq, List.append_assoc]

theorem Reads.unique {here left right : Position} {text : List Char} (first : here.Reads text left)
    (second : here.Reads text right) : left = right :=
  eq_of_offset (first.input_eq.trans second.input_eq.symm)
    (first.offset_eq.trans second.offset_eq.symm)

theorem rest_length (here : Position) : here.rest.length = here.input.size - here.offset := by
  simp [rest, Input.size]

/-- What stands at the front of the rest is read up to a position. -/
theorem exists_reads {here : Position} {text tail : List Char} (front : here.rest = text ++ tail) :
    ∃ stop, here.Reads text stop ∧ stop.rest = tail := by
  have inside : here.offset + text.length ≤ here.input.size := by
    have lengths := congrArg List.length front
    rw [rest_length, List.length_append] at lengths
    have bound := here.offset_le
    omega
  let stop : Position := ⟨here.input, here.offset + text.length, inside⟩
  -- To go on from the position is to drop what was read.
  have tail_eq : stop.rest = tail := by
    change here.input.chars.toList.drop (here.offset + text.length) = tail
    rw [← List.drop_drop]
    change here.rest.drop text.length = tail
    rw [front, List.drop_left']
    rfl
  exact ⟨stop, ⟨rfl, rfl, by rw [tail_eq]; exact front⟩, tail_eq⟩

/-- Before the end stands a character, and a position after it. -/
theorem reads_of_lt {here : Position} (inside : here.offset < here.input.chars.size) :
    here.Reads [here.input.chars[here.offset]] ⟨here.input, here.offset + 1, inside⟩ := by
  refine ⟨rfl, rfl, ?_⟩
  have inList : here.offset < here.input.chars.toList.length := by simpa using inside
  rw [rest, List.drop_eq_getElem_cons inList, Array.getElem_toList]
  rfl

theorem rest_of_not_lt {here : Position} (outside : ¬here.offset < here.input.chars.size) :
    here.rest = [] :=
  List.drop_eq_nil_of_le (by simpa using outside)

/-- The characters from one offset up to another. -/
def segment (here stop : Position) : List Char := here.rest.take (stop.offset - here.offset)

theorem Precedes.reads {here stop : Position} (precedes : here.Precedes stop) :
    here.Reads (here.segment stop) stop := by
  -- Both positions lie inside the text, so that the segment is as long as they are apart.
  have length : (here.segment stop).length = stop.offset - here.offset := by
    have bound := stop.offset_le
    rw [precedes.input_eq] at bound
    rw [segment, List.length_take, rest_length]
    omega
  refine ⟨precedes.input_eq, ?_, ?_⟩
  · rw [length]
    have order := precedes.offset_le
    omega
  · have later : stop.rest = here.rest.drop (stop.offset - here.offset) := by
      rw [rest, rest, List.drop_drop, precedes.input_eq, Nat.add_sub_cancel' precedes.offset_le]
    rw [segment, later, List.take_append_drop]

theorem Reads.segment_eq {here stop : Position} {text : List Char} (reads : here.Reads text stop) :
    here.segment stop = text := by
  rw [segment, reads.offset_eq, Nat.add_sub_cancel_left, reads.rest_eq, List.take_left']
  rfl

/-- The place that matching reaches, and the outcome of a derivation that says the same. -/
inductive Reaches (here : Position) : Option Position → Option (List Char) → Prop
  | success {text : List Char} {stop : Position} :
      here.Reads text stop → here.Reaches (some stop) (some text)
  | failure : here.Reaches none none

end Position

/-- At a position the pattern comes, in so many steps, to its end at another position, or fails. -/
def Parses (grammar : PatternGrammar) (pattern : Pattern) (here : Position) (steps : Nat)
    (stop : Option Position) : Prop :=
  ∃ outcome, Derives grammar pattern here.rest steps outcome ∧ here.Reaches stop outcome

namespace Parses

variable {grammar : PatternGrammar} {here : Position} {steps : Nat} {stop : Option Position}

theorem failure_iff {pattern : Pattern} :
    Parses grammar pattern here steps none ↔ Derives grammar pattern here.rest steps none := by
  constructor
  · rintro ⟨_, derives, ⟨⟩⟩
    exact derives
  · intro derives
    exact ⟨none, derives, .failure⟩

theorem success_iff {pattern : Pattern} {stop : Position} :
    Parses grammar pattern here steps (some stop) ↔
      here.Precedes stop ∧ Derives grammar pattern here.rest steps (some (here.segment stop)) := by
  constructor
  · rintro ⟨_, derives, ⟨reads⟩⟩
    rw [reads.segment_eq]
    exact ⟨reads.precedes, derives⟩
  · rintro ⟨precedes, derives⟩
    exact ⟨_, derives, .success precedes.reads⟩

theorem precedes {pattern : Pattern} {stop : Position}
    (parses : Parses grammar pattern here steps (some stop)) : here.Precedes stop :=
  (success_iff.mp parses).1

theorem of_reads {pattern : Pattern} {text : List Char} {stop : Position}
    (derives : Derives grammar pattern here.rest steps (some text)) (reads : here.Reads text stop) :
    Parses grammar pattern here steps (some stop) :=
  ⟨some text, derives, .success reads⟩

/-- How a pattern parses at a position is determined. -/
theorem unique {pattern : Pattern} {others : Nat} {other : Option Position}
    (parses : Parses grammar pattern here steps stop)
    (also : Parses grammar pattern here others other) : steps = others ∧ stop = other := by
  obtain ⟨outcome, derives, reaches⟩ := parses
  obtain ⟨_, rederives, rereaches⟩ := also
  obtain ⟨rfl, rfl⟩ := derives.unique rederives
  refine ⟨rfl, ?_⟩
  cases reaches with
  | success reads =>
    cases rereaches with
    | success rereads => rw [reads.unique rereads]
  | failure =>
    cases rereaches
    rfl

/-! ### Laws -/

theorem empty_iff : Parses grammar .empty here steps stop ↔ steps = 1 ∧ stop = some here := by
  constructor
  · rintro ⟨_, ⟨⟩, ⟨reads⟩⟩
    exact ⟨rfl, by rw [reads.unique (.refl here)]⟩
  · rintro ⟨rfl, rfl⟩
    exact of_reads .empty (.refl here)

/-- A class matches the next character, if there is one and the class accepts it. -/
theorem terminal (grammar : PatternGrammar) (accept : Char → Bool) (here : Position) :
    Parses grammar (.terminal accept) here 1 ((here.matchChar accept).map Prod.fst) := by
  by_cases inside : here.offset < here.input.chars.size
  · have reads := Position.reads_of_lt inside
    simp only [Position.matchChar, dif_pos inside]
    cases accepted : accept here.input.chars[here.offset] with
    | true =>
      refine of_reads ?_ reads
      rw [reads.rest_eq]
      exact .terminal accepted
    | false =>
      refine failure_iff.mpr ?_
      rw [reads.rest_eq]
      exact .terminalOther accepted
  · simp only [Position.matchChar, dif_neg inside]
    refine failure_iff.mpr ?_
    rw [Position.rest_of_not_lt inside]
    exact .terminalEnd

theorem nonterminal_iff {name : String} :
    Parses grammar (.nonterminal name) here steps stop ↔
      ∃ body inner, grammar name = some body ∧ steps = inner + 1 ∧
        Parses grammar body here inner stop := by
  constructor
  · rintro ⟨outcome, ⟨⟩ | _, reaches⟩
    next body inner defined derives => exact ⟨body, inner, defined, rfl, outcome, derives, reaches⟩
  · rintro ⟨body, inner, defined, rfl, outcome, derives, reaches⟩
    exact ⟨outcome, .nonterminal defined derives, reaches⟩

/-- A sequence fails with either part, and otherwise ends where the second part does. -/
theorem sequence_iff {first second : Pattern} :
    Parses grammar (.sequence first second) here steps stop ↔
      (∃ early, steps = early + 1 ∧ stop = none ∧ Parses grammar first here early none) ∨
        ∃ early late middle, steps = early + late + 1 ∧
          Parses grammar first here early (some middle) ∧
          Parses grammar second middle late stop := by
  constructor
  · rintro ⟨outcome, derives, reaches⟩
    -- The rules split the input in two or three, and each split is a position.
    generalize front : here.rest = input at derives
    cases derives with
    | @sequence _ _ text more rest early late derivesFirst derivesSecond =>
      obtain ⟨middle, reads, tail⟩ := Position.exists_reads front
      obtain ⟨final, rereads, _⟩ := Position.exists_reads tail
      cases reaches with
      | success whole =>
        rw [whole.unique (reads.trans rereads)]
        exact .inr ⟨early, late, middle, rfl, of_reads (front ▸ derivesFirst) reads,
          of_reads (tail ▸ derivesSecond) rereads⟩
    | @sequenceFirst _ _ _ early derivesFirst =>
      cases reaches
      exact .inl ⟨early, rfl, rfl, failure_iff.mpr (front ▸ derivesFirst)⟩
    | @sequenceSecond _ _ text rest early late derivesFirst derivesSecond =>
      obtain ⟨middle, reads, tail⟩ := Position.exists_reads front
      cases reaches
      exact .inr ⟨early, late, middle, rfl, of_reads (front ▸ derivesFirst) reads,
        failure_iff.mpr (tail ▸ derivesSecond)⟩
  · rintro (⟨early, rfl, rfl, failed⟩ | ⟨early, late, middle, rfl, ⟨_, derives, ⟨reads⟩⟩, second⟩)
    · exact failure_iff.mpr (.sequenceFirst (failure_iff.mp failed))
    · obtain ⟨outcome, rederives, reaches⟩ := second
      rw [reads.rest_eq] at derives
      cases reaches with
      | success rereads =>
        rw [rereads.rest_eq] at derives rederives
        refine of_reads ?_ (reads.trans rereads)
        rw [reads.rest_eq, rereads.rest_eq]
        exact .sequence derives rederives
      | failure =>
        refine failure_iff.mpr ?_
        rw [reads.rest_eq]
        exact .sequenceSecond derives rederives

/-- A choice ends where its first part does, or, if that fails, as the second part does. -/
theorem choice_iff {first second : Pattern} :
    Parses grammar (.choice first second) here steps stop ↔
      (∃ early final, steps = early + 1 ∧ stop = some final ∧
          Parses grammar first here early (some final)) ∨
        ∃ early late, steps = early + late + 1 ∧ Parses grammar first here early none ∧
          Parses grammar second here late stop := by
  constructor
  · rintro ⟨outcome, derives, reaches⟩
    cases derives with
    | choiceFirst derives =>
      cases reaches with
      | success reads => exact .inl ⟨_, _, rfl, rfl, of_reads derives reads⟩
    | choiceSecond failed derives =>
      exact .inr ⟨_, _, rfl, failure_iff.mpr failed, outcome, derives, reaches⟩
  · rintro (⟨early, final, rfl, rfl, _, derives, ⟨reads⟩⟩ | ⟨early, late, rfl, failed, second⟩)
    · exact of_reads (.choiceFirst derives) reads
    · obtain ⟨outcome, derives, reaches⟩ := second
      exact ⟨outcome, .choiceSecond (failure_iff.mp failed) derives, reaches⟩

/-- A repetition ends where its part fails, and otherwise as it does after the part. -/
theorem star_iff {body : Pattern} :
    Parses grammar (.star body) here steps stop ↔
      (∃ early, steps = early + 1 ∧ stop = some here ∧ Parses grammar body here early none) ∨
        ∃ early late middle final, steps = early + late + 1 ∧ stop = some final ∧
          Parses grammar body here early (some middle) ∧
          Parses grammar (.star body) middle late (some final) := by
  constructor
  · rintro ⟨outcome, derives, reaches⟩
    generalize front : here.rest = input at derives
    cases derives with
    | @starMore _ text more rest early late derivesBody derivesStar =>
      obtain ⟨middle, reads, tail⟩ := Position.exists_reads front
      obtain ⟨final, rereads, _⟩ := Position.exists_reads tail
      cases reaches with
      | success whole =>
        rw [whole.unique (reads.trans rereads)]
        exact .inr ⟨early, late, middle, final, rfl, rfl, of_reads (front ▸ derivesBody) reads,
          of_reads (tail ▸ derivesStar) rereads⟩
    | @starEnd _ _ early failed =>
      cases reaches with
      | success reads =>
        rw [reads.unique (.refl here)]
        exact .inl ⟨early, rfl, rfl, failure_iff.mpr (front ▸ failed)⟩
  · rintro (⟨early, rfl, rfl, failed⟩ |
      ⟨early, late, middle, final, rfl, rfl, ⟨_, derives, ⟨reads⟩⟩, ⟨_, rederives, ⟨rereads⟩⟩⟩)
    · exact of_reads (.starEnd (failure_iff.mp failed)) (.refl here)
    · rw [reads.rest_eq, rereads.rest_eq] at derives
      rw [rereads.rest_eq] at rederives
      refine of_reads ?_ (reads.trans rereads)
      rw [reads.rest_eq, rereads.rest_eq]
      exact .starMore derives rederives

/-- A predicate fails where its part does not, and otherwise stays where it is. -/
theorem not_iff {body : Pattern} :
    Parses grammar (.not body) here steps stop ↔
      (∃ early final, steps = early + 1 ∧ stop = none ∧
          Parses grammar body here early (some final)) ∨
        ∃ early, steps = early + 1 ∧ stop = some here ∧ Parses grammar body here early none := by
  constructor
  · rintro ⟨outcome, derives, reaches⟩
    cases derives with
    | notFound derives =>
      -- The rule does not say where the body ends, but it ends somewhere.
      obtain ⟨rest, front⟩ := derives.consumes rfl
      obtain ⟨final, reads, _⟩ := Position.exists_reads front
      cases reaches
      exact .inl ⟨_, final, rfl, rfl, of_reads derives reads⟩
    | notMissing failed =>
      cases reaches with
      | success reads =>
        rw [reads.unique (.refl here)]
        exact .inr ⟨_, rfl, rfl, failure_iff.mpr failed⟩
  · rintro (⟨early, final, rfl, rfl, _, derives, ⟨reads⟩⟩ | ⟨early, rfl, rfl, failed⟩)
    · exact failure_iff.mpr (.notFound derives)
    · exact of_reads (.notMissing (failure_iff.mp failed)) (.refl here)

end Parses

end Peg
