import Mathlib.Algebra.Order.BigOperators.Group.List
import Mathlib.Algebra.Order.Ring.Nat
import Peg.Proofs.Heredoc.Closing

/-!
# Documents are read as they were written

Documents are written one after another, each with its tag in front and behind, and the lines of its
body between. Reading goes along with that: nothing runs on, and nothing stops short. A tag and the
characters of a line end where a line ending follows, a line is a line of the body because it is not
the tag alone, and the body ends at the tag that is. A line ending is taken as a whole unless a line
feed follows a carriage return, and that does not happen where all line endings are the same.

## Main result

A call answers with the tags and the bodies of the documents that were written, for each of the
three line endings, and whether or not the last line has its ending.
-/
namespace Peg.Heredoc

open Reader

/-! ### Writing -/

/-- A document to be written, in which no number exceeds a limit. The lines have no line endings
within, and none of them is the tag. -/
structure Document (most : Nat) where
  /-- The tag. -/
  tag : String
  /-- The lines of the body, without their endings. -/
  lines : List String
  named : tag ≠ ""
  tagShort : tag.length ≤ most
  isTag : ∀ c ∈ tag.toList, isTagChar c = true
  few : lines.length ≤ most
  short : ∀ line ∈ lines, line.length ≤ most
  plain : ∀ line ∈ lines, ∀ c ∈ line.toList, isPlain c = true
  apart : tag ∉ lines

/-- The text of the body, where each line has an ending. -/
def Document.body {most : Nat} (source : Document most) (ending : String) : String :=
  String.join (source.lines.map (· ++ ending))

/-- Writes a document. -/
def Document.render {most : Nat} (source : Document most) (ending : String) : String :=
  "<<" ++ source.tag ++ ending ++ source.body ending ++ source.tag ++ ending

/-- Writes documents one after another. -/
def render {most : Nat} (sources : List (Document most)) (ending : String) : String :=
  String.join (sources.map (·.render ending))

/-! ### Where line endings end -/

/-- What comes behind a line ending does not make another one of it. -/
def Apart (ending rest : List Char) : Prop := ending = ['\r'] → rest.head? ≠ some '\n'

theorem apart_self (ending rest : List Char) : Apart ending (ending ++ rest) := by
  rintro rfl
  exact fun same => absurd (Option.some.inj same) (by decide)

theorem apart_of_plain {ending text rest : List Char} (plain : ∀ c ∈ text, isPlain c = true)
    (next : text = [] → Apart ending rest) : Apart ending (text ++ rest) := by
  cases text with
  | nil => exact next rfl
  | cons c text =>
    intro _ same
    obtain rfl := Option.some.inj same
    exact absurd (plain _ List.mem_cons_self) (by decide)

theorem lineEnding_of_front {ending rest : List Char} (isEnding : IsEnding ending)
    (apart : Apart ending rest) : lineEnding (ending ++ rest) = some ending := by
  simp only [IsEnding, List.mem_cons, List.not_mem_nil, or_false] at isEnding
  rcases isEnding with rfl | rfl | rfl
  · rfl
  · rfl
  · cases rest with
    | nil => rfl
    | cons c rest =>
      have other : '\n' ≠ c := fun same => apart rfl (same ▸ rfl)
      simp [lineEnding_eq, first, literal, List.isPrefixOf, other]

theorem IsEnding.length_le {ending : List Char} (isEnding : IsEnding ending) :
    ending.length ≤ 2 := by
  simp only [IsEnding, List.mem_cons, List.not_mem_nil, or_false] at isEnding
  rcases isEnding with rfl | rfl | rfl <;> decide

theorem isBlank_of_isEnding {ending : List Char} (isEnding : IsEnding ending) :
    ∀ c ∈ ending, isBlank c = true := by
  simp only [IsEnding, List.mem_cons, List.not_mem_nil, or_false] at isEnding
  rcases isEnding with rfl | rfl | rfl <;> exact List.all_eq_true.mp rfl

theorem endsLine_append {ending : List Char} (isEnding : IsEnding ending) (rest : List Char) :
    EndsLine (ending ++ rest) := .inr ⟨ending, rest, isEnding, rfl⟩

theorem EndsLine.takeWhile_eq_nil {accept : Char → Bool} {after : List Char}
    (within : ∀ c, accept c = true → isPlain c = true) (ends : EndsLine after) :
    after.takeWhile accept = [] := by
  rcases ends with rfl | ⟨ending, tail, isEnding, rfl⟩
  · rfl
  · obtain ⟨c, others, rfl, refused⟩ := not_plain_of_isEnding isEnding
    refine List.takeWhile_cons_of_neg fun accepted => ?_
    rw [within c accepted] at refused
    cases refused

theorem EndsLine.dropWhile_eq_self {after : List Char} (ends : EndsLine after) :
    after.dropWhile isPlain = after := calc
  after.dropWhile isPlain = after.takeWhile isPlain ++ after.dropWhile isPlain := by
    rw [ends.takeWhile_eq_nil fun _ accepted => accepted, List.nil_append]
  _ = after := List.takeWhile_append_dropWhile

/-- Characters of a line are taken up to its end. -/
theorem EndsLine.takeWhile_append {accept : Char → Bool} {text after : List Char}
    (within : ∀ c, accept c = true → isPlain c = true) (accepted : ∀ c ∈ text, accept c = true)
    (ends : EndsLine after) : (text ++ after).takeWhile accept = text := by
  rw [List.takeWhile_append_of_pos accepted, ends.takeWhile_eq_nil within, List.append_nil]

theorem plain_of_isTagChar {c : Char} (isTag : isTagChar c = true) : isPlain c = true := by
  rw [isPlain, Bool.and_eq_true, bne_iff_ne, bne_iff_ne]
  constructor <;> rintro rfl <;> revert isTag <;> decide

/-! ### Reading lines -/

section Lines

variable {most : Nat} {tag content ending rest : List Char}

theorem tagReader_of_front (named : tag ≠ []) (short : tag.length ≤ most)
    (isTag : ∀ c ∈ tag, isTagChar c = true) (ends : EndsLine rest) :
    tagReader most (tag ++ rest) = some tag := by
  rw [tagReader, repeated_one, ends.takeWhile_append (fun _ => plain_of_isTagChar) isTag]
  exact if_pos ⟨short, List.length_pos_iff.mpr named⟩

theorem lineReader_of_front (short : content.length ≤ most)
    (plain : ∀ c ∈ content, isPlain c = true) (isEnding : IsEnding ending)
    (apart : Apart ending rest) :
    lineReader most (content ++ ending ++ rest) = some (content ++ ending) := by
  have ends := endsLine_append isEnding rest
  have taken := ends.takeWhile_append (fun _ accepted => accepted) plain
  have left : (content ++ (ending ++ rest)).dropWhile isPlain = ending ++ rest := by
    rw [List.dropWhile_append_of_pos plain, ends.dropWhile_eq_self]
  rw [List.append_assoc, lineReader_eq, taken, left, if_pos short,
    lineEnding_of_front isEnding apart, Option.map_some]

variable (isTag : ∀ c ∈ tag, isTagChar c = true)

include isTag

/-- A line that is not the tag does not close the document, also if it starts with the tag. -/
theorem closing_of_other (plain : ∀ c ∈ content, isPlain c = true) (isEnding : IsEnding ending)
    (other : content ≠ tag) : (closing tag (content ++ ending ++ rest)).isSome = false := by
  refine Bool.eq_false_iff.mpr fun some => other ?_
  obtain ⟨after, same, ends⟩ := closing_isSome_iff.mp some
  -- Up to the first line ending, the text is the line on the one hand and the tag on the other.
  calc
    content = (content ++ (ending ++ rest)).takeWhile isPlain :=
      ((endsLine_append isEnding rest).takeWhile_append (fun _ accepted => accepted) plain).symm
    _ = (tag ++ after).takeWhile isPlain := by rw [← List.append_assoc, same]
    _ = tag := ends.takeWhile_append (fun _ accepted => accepted)
      fun c among => plain_of_isTagChar (isTag c among)

theorem bodyLine_of_front (short : content.length ≤ most)
    (plain : ∀ c ∈ content, isPlain c = true) (isEnding : IsEnding ending)
    (other : content ≠ tag) (apart : Apart ending rest) :
    bodyLine most tag (content ++ ending ++ rest) = some (content ++ ending) := by
  rw [bodyLine_eq, closing_of_other isTag plain isEnding other, if_neg Bool.false_ne_true]
  exact lineReader_of_front short plain isEnding apart

omit isTag in
theorem bodyLine_of_closing (ends : EndsLine rest) : bodyLine most tag (tag ++ rest) = none := by
  rw [bodyLine_eq, if_pos (closing_isSome_iff.mpr ⟨rest, rfl, ends⟩)]

end Lines

/-! ### Reading documents -/

/-- How many characters a document has at most. -/
def documentSize (most : Nat) : Nat := most * (most + 2) + 2 * most + 4

namespace Document

variable {most : Nat} (source : Document most) {ending : String}

/-- What is read of a document that was written. -/
def block (ending : String) : Block where
  tag := source.tag.toList
  opened := ending.toList
  lines := source.lines.map fun line => line.toList ++ ending.toList

theorem pair_block : (source.block ending).pair = (source.tag, source.body ending) := by
  have body : (source.block ending).body = (source.body ending).toList := by
    simp [Block.body, block, Document.body, List.flatMap_def, Function.comp_def]
  rw [Block.pair, body, String.ofList_toList, block, String.ofList_toList]

theorem toList_render :
    (source.render ending).toList = (source.block ending).chars ++ ending.toList := by
  simp [render, Block.chars, Block.body, block, Document.body, List.flatMap_def,
    Function.comp_def]

theorem apart_of_line : ∀ line ∈ (source.block ending).lines, ∀ rest,
    Apart ending.toList (line ++ rest) := by
  intro _ written rest
  obtain ⟨line, among, rfl⟩ := List.mem_map.mp written
  rw [List.append_assoc]
  exact apart_of_plain (source.plain line among) fun _ => apart_self _ _

theorem apart_of_tag (rest : List Char) :
    Apart ending.toList (source.tag.toList ++ rest) := by
  refine apart_of_plain (fun c among => plain_of_isTagChar (source.isTag c among)) fun none => ?_
  exact absurd (String.toList_eq_nil_iff.mp none) source.named

/-- The lines of the body are taken one by one, up to the last tag. -/
theorem many_of_lines (isEnding : IsEnding ending.toList) {after : List Char}
    (ends : EndsLine after) :
    many (bodyLine most source.tag.toList) most
        ((source.block ending).lines.flatten ++ (source.tag.toList ++ after)) =
      some (source.block ending).lines := by
  -- Behind a line there is another one or the last tag, and neither makes its ending longer.
  refine many_of_each (fun _ written after apart => ?_) source.apart_of_line
    (source.apart_of_tag after) (bodyLine_of_closing ends) ((List.length_map _).trans_le source.few)
  obtain ⟨line, among, rfl⟩ := List.mem_map.mp written
  have other : line.toList ≠ source.tag.toList := fun same =>
    source.apart (String.toList_injective same ▸ among)
  exact bodyLine_of_front source.isTag (source.short line among) (source.plain line among) isEnding
    other apart

/-- A document is read as it was written, where its last line ends. -/
theorem block?_of_front (isEnding : IsEnding ending.toList) {after : List Char}
    (ends : EndsLine after) :
    block? most ((source.block ending).chars ++ after) = some (source.block ending) := by
  have named : source.tag.toList ≠ [] := by simpa using source.named
  have tagged := tagReader_of_front named source.tagShort source.isTag
    (endsLine_append isEnding ((source.block ending).body ++ (source.tag.toList ++ after)))
  have opened := lineEnding_of_front isEnding
    (starts_flatten (source.apart_of_line) (source.apart_of_tag after))
  have filled := source.many_of_lines isEnding ends
  have written : (source.block ending).chars ++ after = ['<', '<'] ++ (source.tag.toList ++
      (ending.toList ++ ((source.block ending).body ++ (source.tag.toList ++ after)))) := by
    simp [Block.chars, block]
  rw [Block.body] at tagged written
  simp only [written, block?, literal_of_front, List.drop_left, tagged, opened, filled,
    Option.bind_some, Option.map_some]
  rfl

theorem chars_length_le (isEnding : IsEnding ending.toList) :
    (source.block ending).chars.length ≤ documentSize most := by
  have pair := isEnding.length_le
  have body : (source.block ending).body.length ≤ most * (most + 2) := by
    have each : ∀ size ∈ (source.block ending).lines.map List.length, size ≤ most + 2 := by
      simp only [block, List.map_map, List.forall_mem_map, Function.comp_apply, List.length_append]
      exact fun line among => Nat.add_le_add (source.short line among) pair
    calc
      (source.block ending).body.length
        = ((source.block ending).lines.map List.length).sum := List.length_flatten
      _ ≤ ((source.block ending).lines.map List.length).length * (most + 2) :=
        List.sum_le_card_nsmul _ _ each
      _ = source.lines.length * (most + 2) := by rw [List.length_map, block, List.length_map]
      _ ≤ most * (most + 2) := Nat.mul_le_mul_right _ source.few
  have tag : source.tag.toList.length ≤ most := source.tagShort
  simp only [Block.chars, List.length_append, List.length_cons, List.length_nil] at body ⊢
  simp only [block] at body ⊢
  rw [documentSize]
  omega

end Document

/-- A text of documents that are written one after another. Its last line may have no ending. -/
inductive Rendered {most : Nat} (ending : String) : List (Document most) → List Char → Prop
  | none : Rendered ending [] []
  | last (source : Document most) : Rendered ending [source] (source.block ending).chars
  | more (source : Document most) {later : List (Document most)} {text : List Char}
      (rendered : Rendered ending later text) :
      Rendered ending (source :: later) ((source.block ending).chars ++ (ending.toList ++ text))

namespace Rendered

variable {most : Nat} {ending : String} {sources : List (Document most)} {text : List Char}

theorem toList_render_cons (source : Document most) (sources : List (Document most))
    (ending : String) : (render (source :: sources) ending).toList =
      (source.block ending).chars ++ (ending.toList ++ (render sources ending).toList) := by
  rw [render, List.map_cons, String.join_cons, String.toList_append, source.toList_render,
    List.append_assoc, render]

theorem of_render (sources : List (Document most)) (ending : String) :
    Rendered ending sources (render sources ending).toList := by
  induction sources with
  | nil => exact .none
  | cons source sources ih =>
    rw [toList_render_cons]
    exact .more source ih

/-- Without the ending of its last line, it is still a text of the documents. -/
theorem of_render_without (sources : List (Document most)) (ending : String)
    (filled : sources ≠ []) : ∃ text, (render sources ending).toList = text ++ ending.toList ∧
      Rendered ending sources text := by
  induction sources with
  | nil => exact absurd rfl filled
  | cons source sources ih =>
    rw [toList_render_cons]
    cases sources with
    -- Only behind the last document is there an ending to leave out.
    | nil => exact ⟨_, by simp [render], .last source⟩
    | cons next sources =>
      obtain ⟨text, same, rendered⟩ := ih (List.cons_ne_nil _ _)
      exact ⟨_, by rw [same]; simp only [List.append_assoc], .more source rendered⟩

theorem of_text {text : String} (isEnding : IsEnding ending.toList)
    (written : text = render sources ending ∨ text ++ ending = render sources ending) :
    Rendered ending sources text.toList := by
  rcases written with rfl | written
  · exact of_render sources ending
  · have same : text.toList ++ ending.toList = (render sources ending).toList := by
      rw [← written, String.toList_append]
    have filled : sources ≠ [] := by
      rintro rfl
      obtain ⟨c, others, split, _⟩ := not_plain_of_isEnding isEnding
      simp [render, split] at same
    obtain ⟨shorter, split, rendered⟩ := of_render_without sources ending filled
    rwa [List.append_cancel_right (same.trans split)]

/-- The text starts with no blank. -/
theorem dropWhile_isBlank (rendered : Rendered ending sources text) :
    text.dropWhile isBlank = text := by
  cases rendered with
  | none => rfl
  | last source => rfl
  | more source rendered => rfl

/-- The documents are read one by one, and nothing is left. -/
theorem blocks?_eq (rendered : Rendered ending sources text) (isEnding : IsEnding ending.toList)
    {allowed : Nat} (few : sources.length ≤ allowed) :
    blocks? most allowed text = some (sources.map (·.block ending), []) := by
  have stops (allowed : Nat) : blocks? most allowed [] = some ([], []) := by
    cases allowed <;> rfl
  induction rendered generalizing allowed with
  | none => exact stops allowed
  | last source =>
    obtain ⟨allowed, rfl⟩ := Nat.exists_eq_add_of_lt few
    have read := source.block?_of_front isEnding (.inl rfl)
    rw [List.append_nil] at read
    simp [blocks?, read, stops]
  | @more source later text rendered ih =>
    obtain ⟨allowed, rfl⟩ := Nat.exists_eq_add_of_lt few
    have read := source.block?_of_front isEnding (endsLine_append isEnding text)
    -- The ending behind the last tag is skipped as a blank, and the next document begins.
    have skipped : (ending.toList ++ text).dropWhile isBlank = text := by
      rw [List.dropWhile_append_of_pos (isBlank_of_isEnding isEnding), rendered.dropWhile_isBlank]
    simp only [blocks?, read, List.drop_left, skipped, ih (Nat.le_add_right _ _), Option.map_some,
      List.map_cons]

theorem length_le (rendered : Rendered ending sources text) (isEnding : IsEnding ending.toList) :
    text.length ≤ sources.length * (documentSize most + 2) := by
  induction rendered with
  | none => exact Nat.zero_le _
  | last source =>
    have size := source.chars_length_le isEnding
    rw [List.length_singleton]
    omega
  | more source rendered ih =>
    have size := source.chars_length_le isEnding
    have pair := isEnding.length_le
    rw [List.length_append, List.length_append, List.length_cons, Nat.succ_mul]
    omega

end Rendered

theorem parseCost_mono {size most : Nat} (short : size ≤ most) :
    parseCost size ≤ parseCost most := by
  rw [parseCost, parseCost, documentsCost, documentsCost]
  have each : blockCost 1024 + (size + 2) * 10 + 7 ≤ blockCost 1024 + (most + 2) * 10 + 7 := by
    omega
  exact Nat.add_le_add_right (Nat.mul_le_mul_left _ each) _

/-! ### Main result -/

/-- Documents are answered as they were written, with any of the three line endings. The text may
also leave out the very last of them. -/
theorem heredocs_of_render (sources : List (Document 1024)) (few : sources.length ≤ 1024)
    (ending : String) (isEnding : ending ∈ ["\r\n", "\n", "\r"]) (text : String)
    (written : text = render sources ending ∨ text ++ ending = render sources ending) :
    heredocs text = .ok (sources.map fun source => (source.tag, source.body ending)) := by
  replace isEnding : IsEnding ending.toList := by
    simp only [List.mem_cons, List.not_mem_nil, or_false] at isEnding
    rcases isEnding with rfl | rfl | rfl <;> simp [IsEnding]
  have rendered := Rendered.of_text isEnding written
  -- What is read is what was written, and the length of the text bounds the moves it takes.
  have read : read? 1024 text.toList = some (sources.map (·.block ending)) := by
    rw [read?, rendered.blocks?_eq isEnding few]
    rfl
  have short : text.toList.length ≤ 1024 * (documentSize 1024 + 2) :=
    (rendered.length_le isEnding).trans (Nat.mul_le_mul_right _ few)
  rw [heredocs_of_read read ((parseCost_mono short).trans (by decide)), List.map_map]
  simp only [Function.comp_def, Document.pair_block]

/-- A line that opens another document, the tag of that, a line that starts with the own tag, and an
empty one. -/
def nested : Document 1024 where
  tag := "A"
  lines := ["<<B", "B", "AB", ""]
  named := by decide
  tagShort := by decide
  isTag := List.all_eq_true.mp rfl
  few := by decide
  short := by decide
  plain := by
    have each : ∀ line ∈ ["<<B", "B", "AB", ""], line.toList.all isPlain = true := by decide
    exact fun line among => List.all_eq_true.mp (each line among)
  apart := by decide

/-- All of that is the body of one document, also if the text ends with the last tag. -/
theorem nested_read_back :
    [nested].length ≤ 1024 ∧ "\n" ∈ ["\r\n", "\n", "\r"] ∧
      "<<A\n<<B\nB\nAB\n\nA" ++ "\n" = render [nested] "\n" ∧
      heredocs "<<A\n<<B\nB\nAB\n\nA" = .ok [("A", "<<B\nB\nAB\n\n")] := by
  have few : [nested].length ≤ 1024 := by decide
  have isEnding : "\n" ∈ ["\r\n", "\n", "\r"] := by decide
  have written : "<<A\n<<B\nB\nAB\n\nA" ++ "\n" = render [nested] "\n" := by decide
  exact ⟨few, isEnding, written, heredocs_of_render [nested] few "\n" isEnding _ (.inr written)⟩

end Peg.Heredoc
