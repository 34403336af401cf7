import Peg.Proofs.Json.Decoding
import Peg.Proofs.Json.Meaning
import Peg.Proofs.Json.Tokens
import Peg.Proofs.Repetition.Rows
import Peg.Proofs.Scan.Parsing

/-!
# Strings are cut alike

The rule for strings is atomic, so that its match has no tree from which the parts of a string could
be taken. The text of the match is therefore cut into pieces a second time, by a loop that looks at
no more than the next two characters.

## Main result

Where the rule for strings matches without a limit, the text between the quotes is cut into the
pieces that the rule for one character has matched, one after the other, and nothing is left. Each
piece that is not the half of a surrogate pair stands for one character.
-/
namespace Peg.Json

/-! ### Pieces -/

/-- An escape of a code unit that stands for no character. -/
def Piece.IsSurrogate : Piece → Prop
  | unit a b c d => 0xd800 ≤ (unit a b c d).codePoint ∧ (unit a b c d).codePoint ≤ 0xdfff
  | _ => False

theorem toNat_lt_of_hexValue {digit : Char} {value : Nat} (known : hexValue? digit = some value) :
    digit.toNat < 103 := by
  have le_iff : ∀ c d : Char, c ≤ d ↔ c.toNat ≤ d.toNat := fun c d => UInt32.le_iff_toNat_le
  have last : '9'.toNat = 57 ∧ 'F'.toNat = 70 ∧ 'f'.toNat = 102 := by decide
  simp only [hexValue?, le_iff] at known
  split_ifs at known <;> omega

theorem isHex_of_hexValue {digit : Char} {value : Nat} (known : hexValue? digit = some value) :
    IsHex digit value ∧ value < 16 := by
  have all : ∀ code < 103, ∀ value ∈ hexValue? (Char.ofNat code),
      IsHex (Char.ofNat code) value ∧ value < 16 := by decide +kernel
  have fits := all digit.toNat (toNat_lt_of_hexValue known)
  rw [Char.ofNat_toNat] at fits
  exact fits value known

theorem mem_shortEscapes {mark meant : Char} (known : shortMeaning? mark = some meant) :
    (mark, meant.toNat) ∈ shortEscapes := by
  unfold shortMeaning? at known
  split at known <;> cases known <;> decide

theorem Piece.renders_codePoint {piece : Piece} (valid : piece.Valid)
    (scalar : ¬piece.IsSurrogate) : piece.Renders piece.codePoint := by
  cases piece with
  | plain c => rfl
  | short mark meant => exact mem_shortEscapes valid
  | unit a b c d =>
    simp only [Valid, List.forall_mem_cons, Option.isSome_iff_exists] at valid
    obtain ⟨⟨first, hexA⟩, ⟨second, hexB⟩, ⟨third, hexC⟩, ⟨fourth, hexD⟩, _⟩ := valid
    obtain ⟨isA, lowA⟩ := isHex_of_hexValue hexA
    obtain ⟨isB, lowB⟩ := isHex_of_hexValue hexB
    obtain ⟨isC, lowC⟩ := isHex_of_hexValue hexC
    obtain ⟨isD, lowD⟩ := isHex_of_hexValue hexD
    have value : (unit a b c d).codePoint = 16 * (16 * (16 * first + second) + third) + fourth := by
      simp [codePoint, hexA, hexB, hexC, hexD]
    change ¬(0xd800 ≤ (unit a b c d).codePoint ∧ (unit a b c d).codePoint ≤ 0xdfff) at scalar
    generalize (unit a b c d).codePoint = point at value scalar
    -- The digits are found again in the code point that they make up.
    obtain ⟨rfl, rfl, rfl, rfl⟩ : point / 4096 = first ∧ point / 256 % 16 = second ∧
        point / 16 % 16 = third ∧ point % 16 = fourth := by omega
    exact ⟨by omega, scalar, isA, isB, isC, isD⟩

/-- What a piece renders is a character. -/
theorem Piece.Renders.exists_char {piece : Piece} {point : Nat} (valid : piece.Valid)
    (renders : piece.Renders point) : ∃ c : Char, c.toNat = point := by
  cases piece with
  | plain c => exact ⟨c, renders⟩
  | short mark meant =>
    have same := shortMeaning_of_mem renders
    rw [show shortMeaning? mark = some meant from valid] at same
    exact ⟨meant, Option.some.inj same⟩
  | unit a b c d =>
    obtain ⟨low, scalar, _⟩ := renders
    -- Code units that are no halves of a pair are code points.
    have valid : point.isValidChar := by
      unfold Nat.isValidChar
      omega
    exact ⟨Char.ofNat point, by rw [Char.ofNat, dif_pos valid]; rfl⟩

/-- What a piece adds to a string, unless it is half of a surrogate pair, is one character: itself,
the one that its mark stands for, or the one with its hexadecimal code. -/
def Piece.Adds (piece : Piece) (point : Nat) : Prop :=
  ¬piece.IsSurrogate → ∃ c : Char, c.toNat = point ∧ piece.Renders point

theorem pieces_add {pieces : List Piece} (valid : ∀ piece ∈ pieces, piece.Valid) :
    List.Forall₂ Piece.Adds pieces (pieces.map Piece.codePoint) := by
  rw [List.forall₂_map_right_iff, List.forall₂_same]
  intro piece among scalar
  have renders := Piece.renders_codePoint (valid piece among) scalar
  obtain ⟨c, same⟩ := renders.exists_char (valid piece among)
  exact ⟨c, same, renders⟩

/-! ### Matches of the rules -/

/-- A string is matched by a quote, by matches of the rule for one character in a row, of which a
further one fails, and by another quote. The matches in a row read these texts. -/
inductive Quotes (env : Env) (here : Position) (before : State) (texts : List (List Char))
    (stop : Position) (after : State) : Prop
  | mk {opening closing : Match} {inside : Position} {opened ended missed : State}
      (opens : Finishes env (.literal "\"") here true before (some opening) opened)
      (row : InARow env (.ref "char") opening.stop opened texts inside ended)
      (fails : Finishes env (.ref "char") inside true ended none missed)
      (closes : Finishes env (.literal "\"") inside true missed (some closing) after)
      (stops : closing.stop = stop)

section Matches

variable {env : Env} {expr : Expr} {here stop : Position} {atomic : Bool} {before after : State}

/-- Matching comes to the outcome that the expression has. -/
theorem reaches_of_finishes {result : Option Match} {outcome : Option (List Char)}
    (finishes : Finishes env expr here atomic before result after)
    (takes : (Scan.expr env atomic expr).Takes env here.rest outcome)
    (whole : here.input = env.input) : here.Reaches (result.map Match.stop) outcome := by
  obtain ⟨_, _, also, reaches⟩ := takes.finishes whole rfl before
  obtain ⟨rfl, _⟩ := finishes.unique also
  exact reaches

/-- What is recognized is read by a match. -/
theorem reads_of_finishes {item : Match} {language : List Char → Prop}
    (recognizes : ∀ size, Scan.Recognizes env size (Scan.expr env atomic expr) (.always language))
    (finishes : Finishes env expr here atomic before (some item) after)
    (whole : here.input = env.input) : ∃ text, language text ∧ here.Reads text item.stop := by
  obtain ⟨outcome, takes, suits⟩ := recognizes _ here.rest (Nat.lt_succ_self _)
  cases reaches_of_finishes finishes takes whole with
  | success reads => exact ⟨_, (suits.may _ rfl).1, reads⟩

variable (rules : env.rules = grammar.table)

include rules

theorem charRef_recognizes (size : Nat) :
    Scan.Recognizes env size (Scan.expr env true (.ref "char")) (.always IsPiece) :=
  .ref (defined rules rfl) (.rule char_recognizes)

theorem InARow.pieces {texts : List (List Char)}
    (row : InARow env (.ref "char") here before texts stop after) (whole : here.input = env.input) :
    ∃ pieces : List Piece, (∀ piece ∈ pieces, piece.Valid) ∧ pieces.map Piece.text = texts := by
  induction row with
  | nil => exact ⟨[], nofun, rfl⟩
  | cons first reads _ ih =>
    obtain ⟨_, ⟨piece, valid, rfl⟩, also⟩ :=
      reads_of_finishes (charRef_recognizes rules) first whole
    -- The text that is read between two places is no other than the piece.
    obtain rfl := reads.segment_eq.symm.trans also.segment_eq
    obtain ⟨pieces, each, rfl⟩ := ih (reads.input_eq.trans whole)
    exact ⟨piece :: pieces, List.forall_mem_cons.mpr ⟨valid, each⟩, rfl⟩

/-- A match of the rule for strings is made of a match of each piece. -/
theorem quotes_of_string (unlimited : env.repeatLimit = none) {found : Match}
    (matched : Finishes env (.ref "string") here atomic before (some found) after) :
    ∃ texts left, Quotes env here (before.inRule env "string" here) texts found.stop left := by
  have known : env.rules.lookup "string" = some (.rule 7 "string" .atomic string) :=
    defined rules rfl
  have loud : RuleKind.atomic ≠ .silent := nofun
  obtain ⟨inner, left, ended, same⟩ := finishes_of_rule loud (finishes_of_ref known matched)
  obtain ⟨fuel, ended⟩ := ended.exists_eval
  obtain ⟨opening, opened, opens, ended⟩ := Eval.items_cons_eq_done ended
  obtain ⟨chars, missed, repeated, ended⟩ := Eval.items_cons_eq_done ended
  obtain ⟨closing, closed, closes, ended⟩ := Eval.items_cons_eq_done ended
  obtain ⟨stops, rfl⟩ := Clause.match_eq_done ended
  -- The characters are those of a repetition, which ended where no further one is matched.
  obtain ⟨rounds, repeated⟩ := repeated.exists_eval
  obtain ⟨texts, middle, row, fails⟩ := Eval.row_of_repetition unlimited repeated
  exact ⟨texts, _, opens, row, fails, closes, stops.symm.trans same⟩

omit rules in
theorem Quotes.reads {texts : List (List Char)} (quotes : Quotes env here before texts stop after)
    (whole : here.input = env.input) : here.Reads ('"' :: (texts.flatten ++ ['"'])) stop := by
  obtain ⟨opens, row, _, closes, rfl⟩ := quotes
  have quote (size : Nat) :
      Scan.Recognizes env size (Scan.expr env true (.literal "\"")) (.always (· = ['"'])) :=
    Scan.literal_recognizes "\"" size
  obtain ⟨_, rfl, first⟩ := reads_of_finishes quote opens whole
  have inside := first.input_eq.trans whole
  obtain ⟨_, rfl, last⟩ := reads_of_finishes quote closes (row.reads.input_eq.trans inside)
  exact first.trans (row.reads.trans last)

omit rules in
/-- The node of a string holds its text, and nothing below it. -/
theorem node_of_string {found : Match}
    (known : env.rules.lookup "string" = some (.rule 7 "string" .atomic string))
    (matched : Finishes env (.ref "string") here atomic before (some found) after) :
    ∃ span, found.node = some (.rule "string" span none) ∧
      span.text = String.ofList (here.segment found.stop) := by
  obtain ⟨fuel, ended⟩ := finishes_iff_eval.mp matched
  obtain ⟨stop, node⟩ := found
  cases Builds.of_eval ended _ rfl with
  | ref also tiled =>
    cases known.symm.trans also
    cases tiled with
    | rule _ _ covers => exact ⟨_, rfl, covers.text_eq⟩

end Matches

/-! ### Main result -/

/-- Let the rule for strings match somewhere, and let nothing limit how often a part may match. The
text of the match is a quote, the texts that the rule for one character has matched in a row, and
another quote. It is unescaped without an error, and what is between its quotes is cut into pieces
with just these texts. Each piece adds one code point, and unless it is half of a surrogate pair,
that is the character which it renders. -/
theorem strings_are_cut_alike (env : Env) (rules : env.rules = grammar.table)
    (unlimited : env.repeatLimit = none) (here : Position) (whole : here.input = env.input)
    (atomic : Bool) (before after : State) (found : Match)
    (matched : Finishes env (.ref "string") here atomic before (some found) after) :
    ∃ (node : Node) (parts : List Piece) (points : List Nat) (left : State),
      found.node = some node ∧ here.Reads node.text.toList found.stop ∧
        Quotes env here (before.inRule env "string" here) (parts.map Piece.text) found.stop left ∧
        node.text.toList = '"' :: ((parts.map Piece.text).flatten ++ ['"']) ∧
        pieces (node.text.toList.drop 1).dropLast = .ok parts ∧
        unescape node.text = .ok points ∧ List.Forall₂ Piece.Adds parts points := by
  obtain ⟨texts, left, quotes⟩ := quotes_of_string rules unlimited matched
  obtain ⟨parts, valid, rfl⟩ : ∃ parts : List Piece, (∀ piece ∈ parts, piece.Valid) ∧
      parts.map Piece.text = texts := by
    obtain ⟨opens, row, _⟩ := quotes
    exact InARow.pieces rules row (opens.precedes.input_eq.trans whole)
  obtain ⟨span, node, spelled⟩ := node_of_string (defined rules rfl) matched
  have reads := quotes.reads whole
  rw [reads.segment_eq] at spelled
  have text : (Node.rule "string" span none).text.toList =
      '"' :: ((parts.map Piece.text).flatten ++ ['"']) := by
    change span.text.toList = _
    rw [spelled, String.toList_ofList]
  have cut : pieces ((Node.rule "string" span none).text.toList.drop 1).dropLast = .ok parts := by
    rw [text, List.drop_one, List.tail_cons, List.dropLast_concat, ← List.flatMap_def,
      pieces_flatMap valid]
  refine ⟨_, parts, parts.map Piece.codePoint, left, node, ?_, quotes, text, cut, ?_,
    pieces_add valid⟩
  · rw [text]
    exact reads
  · rw [unescape, cut]
    rfl

/-- A plain character, a short escape and the escape of a code unit, between quotes. -/
def mixedString : Input :=
  ⟨0, #['"', 'a', '\\', 'n', '\\', 'u', '0', '0', 'e', '9', '"']⟩

/-- The three are matched, and cut alike. -/
theorem mixed_string_cut_alike :
    let env : Env := { input := mixedString, rules := grammar.table }
    let here : Position := .start mixedString
    env.rules = grammar.table ∧ env.repeatLimit = none ∧ here.input = env.input ∧
      ∃ (found : Match) (after : State),
        Finishes env (.ref "string") here false {} (some found) after ∧
        ∃ (node : Node) (parts : List Piece) (points : List Nat) (left : State),
          found.node = some node ∧ here.Reads node.text.toList found.stop ∧
            Quotes env here (({} : State).inRule env "string" here) (parts.map Piece.text)
              found.stop left ∧
            node.text.toList = '"' :: ((parts.map Piece.text).flatten ++ ['"']) ∧
            pieces (node.text.toList.drop 1).dropLast = .ok parts ∧
            unescape node.text = .ok points ∧ List.Forall₂ Piece.Adds parts points := by
  intro env here
  have matched : ∃ found after, Finishes env (.ref "string") here false {} (some found) after :=
    ⟨_, _, 600, rfl⟩
  obtain ⟨found, after, matched⟩ := matched
  exact ⟨rfl, rfl, rfl, found, after, matched,
    strings_are_cut_alike env rfl rfl here rfl false {} after found matched⟩

end Peg.Json
