import Peg.Proofs.Heredoc.Reading

/-!
# Where documents end

A document is meant to end at a line that holds only its tag. Lines of the body are taken as long as
they do not hold the tag only; but that is not the only way for the body to come to its end. It also
ends where no line can be taken: at a last line that has no ending, and at a line with more
characters than the limit allows. If such a line starts with the tag, then the document ends right
behind that, whatever follows on the line.

## Main result

Every document that is found stands in the text, with its last tag at the start of a line and no
line of its body that holds only the tag. What follows the last tag is the end of a line, or it is
on a line that could not be taken.
-/
namespace Peg.Heredoc

open Reader

/-- The text is a line ending. -/
def IsEnding (text : List Char) : Prop := text ∈ [['\r', '\n'], ['\n'], ['\r']]

/-- What comes next is a line ending, or nothing at all. -/
def EndsLine (rest : List Char) : Prop :=
  rest = [] ∨ ∃ ending tail, IsEnding ending ∧ rest = ending ++ tail

/-- What comes next cannot be taken as a line: it has no ending, or too many characters. -/
def NoLine (most : Nat) (rest : List Char) : Prop :=
  (∀ c ∈ rest, isPlain c = true) ∨ most < (rest.takeWhile isPlain).length

/-- A line of a body: it has an ending, and is not the tag alone. -/
def IsLineOf (tag line : List Char) : Prop :=
  ∃ content ending, line = content ++ ending ∧ (∀ c ∈ content, isPlain c = true) ∧
    IsEnding ending ∧ content ≠ tag

/-! ### Lines -/

theorem not_plain_of_isEnding {ending : List Char} (isEnding : IsEnding ending) :
    ∃ c tail, ending = c :: tail ∧ isPlain c = false := by
  simp only [IsEnding, List.mem_cons, List.not_mem_nil, or_false] at isEnding
  rcases isEnding with rfl | rfl | rfl <;> exact ⟨_, _, rfl, rfl⟩

theorem lineReader_eq (most : Nat) (rest : List Char) : lineReader most rest =
    if (rest.takeWhile isPlain).length ≤ most then
      (lineEnding (rest.dropWhile isPlain)).map (rest.takeWhile isPlain ++ ·)
    else none := by
  have split : rest = rest.takeWhile isPlain ++ rest.dropWhile isPlain :=
    List.takeWhile_append_dropWhile.symm
  have left : rest.drop (rest.takeWhile isPlain).length = rest.dropWhile isPlain :=
    (congrArg (List.drop _) split).trans List.drop_left
  rw [lineReader, both, repeated_one]
  by_cases few : (rest.takeWhile isPlain).length ≤ most
  · rw [if_pos ⟨few, Nat.zero_le _⟩, if_pos few, Option.bind_some, left]
  · rw [if_neg fun both => few both.1, if_neg few, Option.bind_none]

theorem lineReader_eq_some {most : Nat} {rest line : List Char}
    (taken : lineReader most rest = some line) : ∃ content ending tail,
      line = content ++ ending ∧ rest = line ++ tail ∧ (∀ c ∈ content, isPlain c = true) ∧
        IsEnding ending := by
  rw [lineReader_eq] at taken
  split at taken
  · obtain ⟨ending, ends, rfl⟩ := Option.map_eq_some_iff.mp taken
    obtain ⟨isEnding, tail, left⟩ := lineEnding_eq_some ends
    refine ⟨_, ending, tail, rfl, ?_, fun c among => List.mem_takeWhile_imp among, isEnding⟩
    rw [List.append_assoc, ← left, List.takeWhile_append_dropWhile]
  · cases taken

theorem noLine_of_lineReader {most : Nat} {rest : List Char}
    (missed : lineReader most rest = none) : NoLine most rest := by
  rw [lineReader_eq] at missed
  split at missed
  · -- No line ending follows, so that there are only characters in front of one.
    refine .inl (List.dropWhile_eq_nil_iff.mp ?_)
    have ends := lineEnding_isSome (rest.dropWhile isPlain)
    rw [Option.map_eq_none_iff.mp missed, Option.isSome_none] at ends
    have refused := List.head?_dropWhile_not isPlain rest
    cases left : rest.dropWhile isPlain with
    | nil => rfl
    | cons c tail =>
      rw [left, List.head?_cons] at ends refused
      rw [Option.any_some, show isPlain c = false from refused] at ends
      cases ends
  · exact .inr (by omega)

theorem lineEnding_isSome_iff {rest : List Char} : (lineEnding rest).isSome = true ↔
    ∃ ending tail, IsEnding ending ∧ rest = ending ++ tail := by
  constructor
  · intro some
    obtain ⟨ending, taken⟩ := Option.isSome_iff_exists.mp some
    obtain ⟨isEnding, tail, rest_eq⟩ := lineEnding_eq_some taken
    exact ⟨ending, tail, isEnding, rest_eq⟩
  · rintro ⟨ending, tail, isEnding, rfl⟩
    obtain ⟨c, others, rfl, refused⟩ := not_plain_of_isEnding isEnding
    rw [lineEnding_isSome, List.cons_append, List.head?_cons, Option.any_some, refused,
      Bool.not_false]

/-- A tag closes a document where its line ends behind it. -/
theorem closing_isSome_iff {tag rest : List Char} :
    (closing tag rest).isSome = true ↔ ∃ after, rest = tag ++ after ∧ EndsLine after := by
  have ends (after : List Char) :
      (first [lineEnding, ended] after).isSome = true ↔ EndsLine after := by
    rw [EndsLine, ← lineEnding_isSome_iff, first, List.findSome?_isSome_iff]
    simp [ended, or_comm, Option.isSome_iff_exists]
  constructor
  · intro some
    cases taken : literal tag rest with
    | none => simp [closing, both, taken] at some
    | some text =>
      obtain ⟨rfl, after, rfl⟩ := literal_eq_some.mp taken
      refine ⟨after, rfl, (ends after).mp ?_⟩
      simpa [closing, both, taken] using some
  · rintro ⟨after, rfl, endsLine⟩
    rw [closing, both, literal_of_front, Option.bind_some, List.drop_left, Option.isSome_map]
    exact (ends after).mpr endsLine

theorem bodyLine_eq (most : Nat) (tag rest : List Char) : bodyLine most tag rest =
    if (closing tag rest).isSome then none else lineReader most rest :=
  both_absent _ _ rest

theorem bodyLine_fair {most : Nat} {tag rest line : List Char}
    (taken : bodyLine most tag rest = some line) : ∃ tail, rest = line ++ tail := by
  rw [bodyLine_eq] at taken
  split at taken
  · cases taken
  · obtain ⟨_, _, tail, _, rest_eq, _⟩ := lineReader_eq_some taken
    exact ⟨tail, rest_eq⟩

/-- No line that is taken for the body holds the tag only. -/
theorem isLineOf_of_bodyLine {most : Nat} {tag rest line : List Char}
    (taken : bodyLine most tag rest = some line) : IsLineOf tag line := by
  rw [bodyLine_eq] at taken
  split at taken
  · cases taken
  next open_ =>
    obtain ⟨content, ending, tail, rfl, rfl, plain, isEnding⟩ := lineReader_eq_some taken
    refine ⟨content, ending, rfl, plain, isEnding, ?_⟩
    rintro rfl
    refine open_ (closing_isSome_iff.mpr ⟨ending ++ tail, List.append_assoc _ _ _, .inr ?_⟩)
    exact ⟨ending, tail, isEnding, rfl⟩

/-! ### Documents -/

/-- A document that is well-formed, and does not end too early. -/
structure Block.WellFormed (block : Block) : Prop where
  tag_ne : block.tag ≠ []
  isTag : ∀ c ∈ block.tag, isTagChar c = true
  opened : IsEnding block.opened
  lines : ∀ line ∈ block.lines, IsLineOf block.tag line

theorem tagReader_eq_some {most : Nat} {rest tag : List Char}
    (taken : tagReader most rest = some tag) :
    tag ≠ [] ∧ (∀ c ∈ tag, isTagChar c = true) ∧ ∃ tail, rest = tag ++ tail := by
  rw [tagReader, repeated_one] at taken
  split at taken
  next bounds =>
    cases taken
    refine ⟨List.ne_nil_of_length_pos bounds.2, fun c among => List.mem_takeWhile_imp among,
      rest.dropWhile isTagChar, ?_⟩
    exact List.takeWhile_append_dropWhile.symm
  · cases taken

/-- A document stands at the front of what it is read from. If the line of its last tag does not end
behind that, it could not be taken for the body. -/
theorem block?_eq_some {most : Nat} {rest : List Char} {block : Block}
    (read : block? most rest = some block) : block.WellFormed ∧ ∃ after,
      rest = block.chars ++ after ∧ (EndsLine after ∨ NoLine most (block.tag ++ after)) := by
  simp only [block?, Option.bind_eq_some_iff, Option.map_eq_some_iff] at read
  obtain ⟨opening, opens, tag, named, opened, ends, lines, filled, _, closes, rfl⟩ := read
  obtain ⟨rfl, rest, rfl⟩ := literal_eq_some.mp opens
  rw [List.drop_left] at named ends filled closes
  obtain ⟨tag_ne, isTag, rest, rfl⟩ := tagReader_eq_some named
  rw [List.drop_left] at ends filled closes
  obtain ⟨isEnding, rest, rfl⟩ := lineEnding_eq_some ends
  rw [List.drop_left] at filled closes
  obtain ⟨rest, rfl, stopped, each⟩ := many_eq_some bodyLine_fair filled
  rw [List.drop_left] at closes
  obtain ⟨rfl, after, rfl⟩ := literal_eq_some.mp closes
  refine ⟨⟨tag_ne, isTag, isEnding, fun line among => ?_⟩, after, ?_, ?_⟩
  · obtain ⟨others, taken⟩ := each line among
    exact isLineOf_of_bodyLine taken
  · simp only [Block.chars, Block.body, List.append_assoc]
  · -- The body ends at the last tag because that closes the document, or no line can be taken.
    rw [bodyLine_eq] at stopped
    split at stopped
    next closed =>
      obtain ⟨tail, same, endsLine⟩ := closing_isSome_iff.mp closed
      exact .inl (List.append_cancel_left same ▸ endsLine)
    next => exact .inr (noLine_of_lineReader stopped)

/-- Each document that is read stands in the text. -/
theorem block?_of_mem_blocks? {most allowed : Nat} {rest left : List Char} {blocks : List Block}
    (read : blocks? most allowed rest = some (blocks, left)) {block : Block}
    (among : block ∈ blocks) :
    ∃ before after, rest = before ++ after ∧ block? most after = some block := by
  induction allowed generalizing rest blocks with
  | zero =>
    rw [blocks?] at read
    split at read
    · cases read
    · cases read
      cases among
  | succ allowed ih =>
    cases first : block? most rest with
    | none =>
      simp only [blocks?, first] at read
      cases read
      cases among
    | some earliest =>
      simp only [blocks?, first, Option.map_eq_some_iff] at read
      obtain ⟨⟨others, final⟩, more, same⟩ := read
      cases same
      rcases List.mem_cons.mp among with rfl | among
      · exact ⟨[], rest, rfl, first⟩
      · obtain ⟨before, after, split, found⟩ := ih more among
        obtain ⟨_, tail, rfl, _⟩ := block?_eq_some first
        rw [List.drop_left] at split
        refine ⟨earliest.chars ++ tail.takeWhile isBlank ++ before, after, ?_, found⟩
        rw [List.append_assoc, List.append_assoc, ← split, List.takeWhile_append_dropWhile]

theorem blocks?_of_read? {most : Nat} {text : List Char} {blocks : List Block}
    (read : read? most text = some blocks) :
    ∃ left, blocks? most most text = some (blocks, left) := by
  obtain ⟨⟨found, left⟩, some, ends⟩ := Option.bind_eq_some_iff.mp read
  refine ⟨left, ?_⟩
  dsimp only at ends
  split at ends
  · rwa [← Option.some.inj ends]
  · cases ends

/-! ### Main result -/

/-- The last tag of a document stands at the start of a line. -/
theorem Block.WellFormed.atLineStart {block : Block} (wellFormed : block.WellFormed) :
    ∃ front ending, block.opened ++ block.body = front ++ ending ∧ IsEnding ending := by
  rcases List.eq_nil_or_concat block.lines with none | ⟨earlier, last, split⟩
  · exact ⟨[], block.opened, by rw [Block.body, none]; simp, wellFormed.opened⟩
  · have among : last ∈ block.lines := by simp [split]
    obtain ⟨content, ending, rfl, _, isEnding, _⟩ := wellFormed.lines last among
    refine ⟨block.opened ++ (earlier.flatten ++ content), ending, ?_, isEnding⟩
    simp [Block.body, split]

/-- Every document that is found stands in the text: two less-than signs, its tag and a line ending,
the lines of its body, each with its ending and none of them the tag alone, and at the start of a
line the tag again. Behind that the line ends, or there is no line ending in the rest of the text,
or the line has more characters than the limit allows. -/
theorem heredocs_stand_in_the_text (text : String) (pairs : List (String × String))
    (answered : heredocs text = .ok pairs) : ∀ pair ∈ pairs,
    ∃ (before : List Char) (block : Block) (after : List Char),
      text.toList = before ++ (block.chars ++ after) ∧ pair = block.pair ∧ block.WellFormed ∧
        (∃ front ending, block.opened ++ block.body = front ++ ending ∧ IsEnding ending) ∧
        (EndsLine after ∨ NoLine 1024 (block.tag ++ after)) := by
  obtain ⟨blocks, read, rfl⟩ := read_of_heredocs answered
  obtain ⟨left, read⟩ := blocks?_of_read? read
  intro pair returned
  obtain ⟨block, among, rfl⟩ := List.mem_map.mp returned
  obtain ⟨before, rest, split, found⟩ := block?_of_mem_blocks? read among
  obtain ⟨wellFormed, after, rfl, ends⟩ := block?_eq_some found
  exact ⟨before, block, after, split, rfl, wellFormed, wellFormed.atLineStart, ends⟩

/-- A line that starts with the tag goes on with something else, and so belongs to the body. -/
theorem document_around_a_longer_tag :
    heredocs "<<A\nAB\nA" = .ok [("A", "AB\n")] ∧
      ∃ (before : List Char) (block : Block) (after : List Char),
        "<<A\nAB\nA".toList = before ++ (block.chars ++ after) ∧ ("A", "AB\n") = block.pair ∧
          block.WellFormed ∧
          (∃ front ending, block.opened ++ block.body = front ++ ending ∧ IsEnding ending) ∧
          (EndsLine after ∨ NoLine 1024 (block.tag ++ after)) := by
  have answered : heredocs "<<A\nAB\nA" = .ok [("A", "AB\n")] :=
    heredocs_of_read (show _ = some [⟨['A'], ['\n'], [['A', 'B', '\n']]⟩] from rfl) (by decide)
  exact ⟨answered, heredocs_stand_in_the_text _ _ answered _ (.head _)⟩

/-- The last line has no ending, and so is not taken for the body. The document ends within it: a
blank follows the last tag, and not the end of the line. -/
theorem blank_behind_the_last_tag :
    heredocs "<<A\nA " = .ok [("A", "")] ∧
      ¬ ∃ (before : List Char) (block : Block) (after : List Char),
        "<<A\nA ".toList = before ++ (block.chars ++ after) ∧ ("A", "") = block.pair ∧
          EndsLine after := by
  constructor
  · exact heredocs_of_read (show _ = some [⟨['A'], ['\n'], []⟩] from rfl) (by decide)
  · rintro ⟨before, block, after, split, same, ends⟩
    obtain ⟨named, filled⟩ := Prod.mk.inj same
    have tag_eq : block.tag = ['A'] := String.ofList_injective named.symm
    have body_eq : block.body = [] := String.ofList_injective filled.symm
    obtain ⟨front, long, split⟩ : ∃ front : List Char, 3 ≤ front.length ∧
        ['<', '<', 'A', '\n', 'A', ' '] = front ++ 'A' :: after :=
      ⟨before ++ (['<', '<', 'A'] ++ block.opened), by simp; omega,
        by simpa [Block.chars, tag_eq, body_eq] using split⟩
    -- Only one letter of the text has three characters or more in front of it: a blank follows.
    have blank : after = [' '] := by
      have behind := (congrArg (List.drop front.length) split).trans List.drop_left
      have size := congrArg List.length split
      rw [List.length_append, List.length_cons] at size
      obtain three | four | five : front.length = 3 ∨ front.length = 4 ∨ front.length = 5 := by
        simp only [List.length_cons, List.length_nil] at size
        omega
      · cases three ▸ behind
      · cases four ▸ behind
        rfl
      · cases five ▸ behind
    rcases ends with none | ⟨ending, tail, isEnding, starts⟩
    · cases blank ▸ none
    · obtain ⟨c, others, rfl, refused⟩ := not_plain_of_isEnding isEnding
      rw [blank, List.cons_append] at starts
      obtain ⟨rfl, _⟩ := List.cons.inj starts
      exact absurd refused (by decide)

end Peg.Heredoc
