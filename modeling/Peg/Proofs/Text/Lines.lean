import Mathlib.Algebra.GroupWithZero.Nat
import Mathlib.Data.List.DropRight
import Peg.Report

/-!
# Lines, columns and excerpts

The lines of a text are what its line feeds divide it into, so that there is one more of them than
there are line feeds. Where an offset stands among them is found by three searches, each for itself:
the line feeds in front of it are counted, the last of them is searched backwards, and the next one
forwards. All three lead to the same line, also for an offset at a line feed, in an empty line, or
behind the last line feed.

## Main result

Line and column of an offset name its place in one of the lines of the text. Further offsets have
further places, and the excerpt of a report shows that line above a caret in that column.
-/
namespace Peg.Text

/-- In a text of some lines, the offset stands in the line of this number, which has this content,
and in this column. Both are counted from one; the last column is that behind the line. -/
structure StandsIn (lines : List (List Char)) (offset line column : Nat) (content : List Char) :
    Prop where
  line_pos : 1 ≤ line
  found : lines[line - 1]? = some content
  column_pos : 1 ≤ column
  column_le : column ≤ content.length + 1
  offset_eq : offset =
    column - 1 + ((lines.take (line - 1)).map List.length).sum + (line - 1)

/-! ### Lines between line feeds -/

theorem length_splitOn (text : List Char) :
    (text.splitOn '\n').length = text.count '\n' + 1 := by
  induction text with
  | nil => rfl
  | cons c text ih =>
    rw [List.splitOn_cons_eq_if_modifyHead]
    by_cases ends : c = '\n'
    · simp [ends, ih]
    · simp [ends, ih]

/-- The lines of a text and the line feeds between them make up the text. -/
theorem sum_length_splitOn (text : List Char) :
    ((text.splitOn '\n').map List.length).sum + text.count '\n' = text.length := by
  induction text with
  | nil => rfl
  | cons c text ih =>
    rw [List.splitOn_cons_eq_if_modifyHead]
    by_cases ends : c = '\n'
    · simp [ends]
      omega
    · cases lines : text.splitOn '\n' with
      | nil => exact absurd lines (List.splitOn_ne_nil _ _)
      | cons first rest =>
        rw [lines] at ih
        simp [ends] at ih ⊢
        omega

/-- A line that starts a text or follows a line feed, and ends the text or is followed by one, is
among the lines of the text, behind those that are in front of it. -/
theorem splitOn_of_line {earlier content later : List Char} (plain : '\n' ∉ content)
    (begins : earlier = [] ∨ ∃ front, earlier = front ++ ['\n'])
    (ends : later = [] ∨ ∃ rest, later = '\n' :: rest) :
    ∃ lines further, (earlier ++ (content ++ later)).splitOn '\n' = lines ++ content :: further ∧
      lines.length = earlier.count '\n' ∧
      (lines.map List.length).sum + earlier.count '\n' = earlier.length := by
  -- What follows the start of the line has the line as its first one, however the line ends.
  obtain ⟨further, last⟩ : ∃ further, (content ++ later).splitOn '\n' = content :: further := by
    have alone := List.splitOn_eq_singleton plain
    rcases ends with rfl | ⟨rest, rfl⟩
    · exact ⟨[], by rw [List.append_nil, alone]⟩
    · exact ⟨rest.splitOn '\n', by rw [List.splitOn_append_cons_self, alone]; rfl⟩
  -- In front of it stand as many lines as line feeds, the last of which ends the last of them.
  rcases begins with rfl | ⟨front, rfl⟩
  · exact ⟨[], further, by simpa using last, rfl, rfl⟩
  · refine ⟨front.splitOn '\n', further, ?_, ?_, ?_⟩
    · rw [List.append_assoc, List.singleton_append, List.splitOn_append_cons_self, last]
    · simpa using length_splitOn front
    · have sum := sum_length_splitOn front
      simp only [List.count_append, List.count_singleton_self, List.length_append,
        List.length_singleton]
      omega

/-! ### The start of a line -/

section LineStart

variable (chars : Array Char)

theorem lineStart_le (place : Nat) : lineStart chars place ≤ place := by
  induction place with
  | zero => exact Nat.le_refl 0
  | succ place ih =>
    rw [lineStart]
    split
    · exact Nat.le_refl _
    · exact Nat.le_succ_of_le ih

/-- The line starts at the start of the text or behind a line feed. -/
theorem lineStart_eq_zero_or (place : Nat) : lineStart chars place = 0 ∨
    ∃ before, lineStart chars place = before + 1 ∧ chars[before]? = some '\n' := by
  induction place with
  | zero => exact .inl rfl
  | succ place ih =>
    rw [lineStart]
    split
    next ends => exact .inr ⟨place, rfl, ends⟩
    · exact ih

/-- From its start on, the line goes on without a line feed. -/
theorem getElem?_ne_of_lineStart_le {place between : Nat} (start : lineStart chars place ≤ between)
    (inside : between < place) : chars[between]? ≠ some '\n' := by
  induction place with
  | zero => exact absurd inside (Nat.not_lt_zero _)
  | succ place ih =>
    rw [lineStart] at start
    split at start
    · omega
    next other =>
      rcases Nat.lt_succ_iff_lt_or_eq.mp inside with before | rfl
      · exact ih start before
      · exact other

/-- The text in front of a line is empty or ends with a line feed. -/
theorem take_lineStart (place : Nat) : chars.toList.take (lineStart chars place) = [] ∨
    ∃ front, chars.toList.take (lineStart chars place) = front ++ ['\n'] := by
  rcases lineStart_eq_zero_or chars place with start | ⟨before, start, ends⟩
  · exact .inl (by rw [start, List.take_zero])
  · refine .inr ⟨chars.toList.take before, ?_⟩
    rw [← Array.getElem?_toList] at ends
    rw [start, List.take_add_one, ends]
    rfl

/-- The part of a line in front of a place in it. -/
theorem not_mem_lineStart (place : Nat) :
    '\n' ∉ (chars.toList.take place).drop (lineStart chars place) := by
  intro member
  obtain ⟨distance, there⟩ := List.mem_iff_getElem?.mp member
  rw [List.getElem?_drop, List.getElem?_take] at there
  split at there
  next inside =>
    rw [Array.getElem?_toList] at there
    exact getElem?_ne_of_lineStart_le chars (Nat.le_add_right _ _) inside there
  · cases there

end LineStart

/-! ### The line of an offset -/

/-- The line that holds a place, with what stands at its end. -/
def lineAround (chars : Array Char) (place : Nat) : List Char :=
  (chars.toList.take place).drop (lineStart chars place) ++
    (chars.toList.drop place).takeWhile (· ≠ '\n')

theorem not_mem_lineAround (chars : Array Char) (place : Nat) :
    '\n' ∉ lineAround chars place := by
  simp only [lineAround, List.mem_append, not_or]
  refine ⟨not_mem_lineStart chars place, fun member => ?_⟩
  simpa using List.mem_takeWhile_imp member

/-- The text is what is in front of the line, the line, and what is behind it. -/
theorem eq_append_lineAround (chars : Array Char) (place : Nat) :
    chars.toList = chars.toList.take (lineStart chars place) ++ (lineAround chars place ++
      (chars.toList.drop place).dropWhile (· ≠ '\n')) := by
  have start : (chars.toList.take place).take (lineStart chars place) =
      chars.toList.take (lineStart chars place) := by
    rw [List.take_take, Nat.min_eq_left (lineStart_le chars place)]
  calc chars.toList = chars.toList.take place ++ chars.toList.drop place :=
        (List.take_append_drop place _).symm
    _ = _ := by
      rw [lineAround, List.append_assoc, List.takeWhile_append_dropWhile, ← List.append_assoc,
        ← start, List.take_append_drop (lineStart chars place)]

/-- The number of the line is that of the line feeds in front of the line, and one more. -/
theorem count_lineStart (chars : Array Char) (place : Nat) :
    (chars.toList.take place).count '\n' =
      (chars.toList.take (lineStart chars place)).count '\n' := by
  -- The part of the line in front of the place has no line feeds to be counted.
  have parts := List.take_append_drop (lineStart chars place) (chars.toList.take place)
  rw [List.take_take, Nat.min_eq_left (lineStart_le chars place)] at parts
  rw [← parts, List.count_append, List.count_eq_zero.mpr (not_mem_lineStart chars place),
    Nat.add_zero]

variable {chars : Array Char} {offset : Nat}

theorem lineColumn_eq (inside : offset ≤ chars.size) :
    lineColumn chars offset = ((((chars.toList.take offset).count '\n' + 1 : Nat) : Int),
      ((offset - lineStart chars offset + 1 : Nat) : Int)) := by
  have start := lineStart_le chars offset
  simp only [lineColumn, clampBound_of_le inside, Prod.mk.injEq]
  omega

theorem lineAt_eq (inside : offset ≤ chars.size) :
    lineAt chars offset = (lineAround chars offset).rdropWhile (· = '\r') := by
  rw [lineAt, clampBound_of_le inside]
  rfl

/-- What is behind a line is nothing, or starts with a line feed. -/
theorem dropWhile_plain (text : List Char) : text.dropWhile (· ≠ '\n') = [] ∨
    ∃ rest, text.dropWhile (· ≠ '\n') = '\n' :: rest := by
  cases behind : text.dropWhile (· ≠ '\n') with
  | nil => exact .inl rfl
  | cons c rest =>
    have stops := List.head?_dropWhile_not (· ≠ '\n') text
    rw [behind] at stops
    exact .inr ⟨rest, by simpa using stops⟩

/-- An offset stands in the line around it, as far from its start as its column tells. -/
theorem standsIn_lineAround (inside : offset ≤ chars.size) :
    StandsIn (chars.toList.splitOn '\n') offset ((chars.toList.take offset).count '\n' + 1)
      (offset - lineStart chars offset + 1) (lineAround chars offset) := by
  have start := lineStart_le chars offset
  obtain ⟨lines, further, split, count, sum⟩ := splitOn_of_line
    (not_mem_lineAround chars offset) (take_lineStart chars offset)
    (dropWhile_plain (chars.toList.drop offset))
  rw [← eq_append_lineAround] at split
  rw [← count_lineStart] at count sum
  rw [List.length_take, Array.length_toList, Nat.min_eq_left (start.trans inside)] at sum
  rw [split, ← count]
  rw [← count] at sum
  constructor
  · exact Nat.le_add_left 1 _
  · rw [Nat.add_sub_cancel, List.getElem?_append_right (Nat.le_refl _), Nat.sub_self]
    rfl
  · exact Nat.le_add_left 1 _
  · simp only [lineAround, List.length_append, List.length_drop, List.length_take,
      Array.length_toList]
    omega
  · rw [Nat.add_sub_cancel, Nat.add_sub_cancel, List.take_left]
    omega

/-! ### Main result -/

/-- Further offsets stand in later lines, or further on in the same one. -/
theorem lineColumn_lt {later : Nat} (before : offset < later) (inside : later ≤ chars.size) :
    (lineColumn chars offset).1 < (lineColumn chars later).1 ∨
      (lineColumn chars offset).1 = (lineColumn chars later).1 ∧
        (lineColumn chars offset).2 < (lineColumn chars later).2 := by
  have first := standsIn_lineAround (Nat.le_of_lt (Nat.lt_of_lt_of_le before inside))
  have second := standsIn_lineAround inside
  have fewer : (chars.toList.take offset).count '\n' ≤ (chars.toList.take later).count '\n' :=
    (List.take_sublist_take_left (Nat.le_of_lt before)).count_le _
  rw [lineColumn_eq inside, lineColumn_eq (by omega)]
  rcases Nat.lt_or_eq_of_le fewer with less | same
  · left
    dsimp only
    omega
  · -- In the same line only the columns can differ.
    right
    have offsets := first.offset_eq
    have others := second.offset_eq
    rw [same] at offsets
    dsimp only
    omega

/-- Line and column of an offset inside a text name its place among the lines that the line feeds
divide the text into, and further offsets have places further on. The excerpt of a report for that
offset is the line without the carriage returns at its end, indented by four spaces, above a caret
that is indented alike and stands in that column. -/
theorem excerpt_shows_the_line_of_its_offset (chars : Array Char) (offset : Nat)
    (inside : offset ≤ chars.size) :
    (∃ (line column : Nat) (content : List Char),
        lineColumn chars offset = ((line : Int), (column : Int)) ∧
        StandsIn (chars.toList.splitOn '\n') offset line column content ∧
        ∀ report : Report, report.input.chars = chars → report.offset = offset →
          report.line = line ∧ report.column = column ∧
          report.excerpt.toList = List.replicate 4 ' ' ++ content.rdropWhile (· = '\r') ++
            '\n' :: List.replicate (4 + (column - 1)) ' ' ++ ['^']) ∧
      ∀ later, offset < later → later ≤ chars.size →
        (lineColumn chars offset).1 < (lineColumn chars later).1 ∨
          (lineColumn chars offset).1 = (lineColumn chars later).1 ∧
            (lineColumn chars offset).2 < (lineColumn chars later).2 := by
  refine ⟨⟨_, _, _, lineColumn_eq inside, standsIn_lineAround inside, ?_⟩,
    fun later before within => lineColumn_lt before within⟩
  rintro ⟨input, _, records⟩ rfl rfl
  have place := lineColumn_eq inside
  refine ⟨congrArg Prod.fst place, congrArg Prod.snd place, ?_⟩
  simp only [Report.excerpt, excerpt, place, lineAt_eq inside, List.replicate_add]
  simp

/-- At the line feed of a line that ends with a carriage return as well, the caret stands two places
behind the line that is shown. The next offset is in the empty line below. -/
theorem caret_stands_behind_the_carriage_return :
    let chars := #['a', '\r', '\n', '\n', 'b']
    2 ≤ chars.size ∧ StandsIn (chars.toList.splitOn '\n') 2 1 3 ['a', '\r'] ∧
      (Report.mk ⟨0, chars⟩ 2 []).excerpt.toList = "    a\n      ^".toList ∧
      (lineColumn chars 2).1 < (lineColumn chars 3).1 := by
  intro chars
  obtain ⟨⟨line, column, content, place, stands, shown⟩, further⟩ :=
    excerpt_shows_the_line_of_its_offset chars 2 (by decide)
  have number : (1 : Int) = line := congrArg Prod.fst place
  have across : (3 : Int) = column := congrArg Prod.snd place
  obtain rfl : line = 1 := by omega
  obtain rfl : column = 3 := by omega
  obtain rfl : content = ['a', '\r'] := (Option.some.inj stands.found).symm
  refine ⟨by decide, stands, (shown ⟨⟨0, chars⟩, 2, []⟩ rfl rfl).2.2, ?_⟩
  exact (further 3 (by decide) (by decide)).resolve_right (by decide)

end Peg.Text
