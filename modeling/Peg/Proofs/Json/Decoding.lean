import Mathlib.Data.List.Forall2
import Mathlib.Data.Nat.Digits.Defs
import Peg.Json.Decode
import Peg.Proofs.Json.Syntax

/-!
# Values of nodes

What the value of a node is, by the rule that it is a match of. The value of an array or an object
depends on the nearest values or pairs below it only, and that of a string or a number on its text
only. A string is cut into the pieces of which it was put together, and the members of an object are
those that are set, if no name is set twice.

A value is read in calls that stand inside each other, and the room for them decides whether it is
read at all. How much of it is needed is known together with the value: for each node that a value
stands in, one call more than for the node below it, and for an array or an object two more than for
the deepest of its parts.
-/
namespace Peg.Json

/-! ### Calls inside each other -/

/-- With so much room or more the value is read, and with less there is too little. -/
def ReadWithin {α : Type} (need : Nat) (value : α) (read : Nat → Except DecodeError α) : Prop :=
  ∀ room, read room = if need ≤ room then .ok value else .error .tooDeep

namespace ReadWithin

variable {α β : Type} {need : Nat} {value : α} {read more : Nat → Except DecodeError α}

/-- What takes a call of its own to read needs room for one call more. -/
theorem call (inner : ReadWithin need value read) (none : more 0 = .error .tooDeep)
    (step : ∀ room, more (room + 1) = read room) : ReadWithin (need + 1) value more := by
  intro room
  cases room with
  | zero => exact none
  | succ room => rw [step, inner room, if_congr (Nat.succ_le_succ_iff.symm) rfl rfl]

theorem pure (value : α) : ReadWithin 0 value fun _ => .ok value := fun _ => rfl

theorem map (f : α → β) (inner : ReadWithin need value read) :
    ReadWithin need (f value) fun room => f <$> read room := by
  intro room
  dsimp only
  rw [inner room]
  split <;> rfl

/-- To read parts one after the other takes as much room as the deepest of them needs. -/
theorem mapM {parts : List α} {results : List (Nat × β)} {f : Nat → α → Except DecodeError β}
    (each : List.Forall₂ (fun part result => ReadWithin result.1 result.2 (f · part))
      parts results) :
    ReadWithin ((results.map Prod.fst).foldr max 0) (results.map Prod.snd)
      fun room => parts.mapM (f room) := by
  intro room
  dsimp only
  induction each with
  | nil => rfl
  | @cons part result parts results first _ ih =>
    have first := first room
    dsimp only at first
    rw [List.mapM_cons, first, ih, List.map_cons, List.foldr_cons]
    -- The first part that finds too little room ends the reading of all.
    by_cases fits : result.1 ≤ room
    · by_cases others : (results.map Prod.fst).foldr max 0 ≤ room
      · rw [if_pos fits, if_pos others, if_pos (Nat.max_le.mpr ⟨fits, others⟩)]
        rfl
      · rw [if_pos fits, if_neg others, if_neg fun both => others (Nat.max_le.mp both).2]
        rfl
    · rw [if_neg fits, if_neg fun both => fits (Nat.max_le.mp both).1]
      rfl

end ReadWithin

/-- The node has a value, which is read with so much room. -/
def HasValue (need : Nat) (value : Value) (node : Node) : Prop :=
  ReadWithin need value (decode · node)

/-! ### Nodes -/

section Nodes

variable {need : Nat} {meant : Value} {span : Span} {child : Option Node} {inner : Node}

/-- The name and the value that a pair stands for. -/
def decodePair (room : Nat) (pair : Node) : Except DecodeError (List Nat × Value) :=
  match pair.rulesWithin ["string", "value"] with
  | [key, value] => do return (← decodeString key, ← decode room value)
  | _ => .error (.unexpectedNode pair.className)

/-- The members of an object are set one after the other. -/
def setMembers (members : List (List Nat × Value)) : List (List Nat × Value) :=
  members.foldl (fun all member => setMember all member.1 member.2) []

/-- The node is a pair, whose value is read with so much room. -/
def HasEntry (need : Nat) (entry : List Nat × Value) (node : Node) : Prop :=
  ReadWithin need entry (decodePair · node)

theorem HasEntry.pair {node key value : Node} {name : List Nat}
    (found : node.rulesWithin ["string", "value"] = [key, value])
    (decoded : decodeString key = .ok name) (has : HasValue need meant value) :
    HasEntry need (name, meant) node := by
  intro room
  rw [← has.map (name, ·) room]
  simp only [decodePair, found, decoded]
  rfl

/-- What is read depends on the rule. -/
theorem decode_rule (room : Nat) (rule : String) (span : Span) (child : Option Node) :
    decode (room + 1) (.rule rule span child) =
      if rule = "document" then
        match (Node.rule rule span child).rulesWithin ["value"] with
        | value :: _ => decode room value
        | [] => .error (.unexpectedNode (Node.rule rule span child).className)
      else if rule = "object" then
        match room with
        | 0 => .error .tooDeep
        | room + 1 => (Value.object <| setMembers ·) <$>
          ((Node.rule rule span child).rulesWithin ["pair"]).mapM (decodePair room)
      else if rule = "array" then
        match room with
        | 0 => .error .tooDeep
        | room + 1 => Value.array <$>
          ((Node.rule rule span child).rulesWithin ["value"]).mapM (decode room)
      else if rule = "string" then .str <$> decodeString (.rule rule span child)
      else if rule = "number" then .ok (numberValue (Node.rule rule span child).text)
      else if rule = "true" then .ok (.bool true)
      else if rule = "false" then .ok (.bool false)
      else if rule = "null" then .ok .null
      else
        match child with
        | some child => decode room child
        | none => .error .absentNode := by
  rw [decode.eq_def]
  simp only [bind_pure_comp]
  rfl

theorem HasValue.choice (index : Nat) (has : HasValue need meant inner) :
    HasValue (need + 1) meant (.choice span index (some inner)) :=
  has.call rfl fun _ => rfl

theorem HasValue.value (has : HasValue need meant inner) :
    HasValue (need + 1) meant (.rule "value" span (some inner)) :=
  has.call rfl fun room => by simp [decode_rule]

theorem HasValue.document {node : Node} (has : HasValue need meant node)
    (found : (Node.rule "document" span child).rulesWithin ["value"] = [node]) :
    HasValue (need + 1) meant (.rule "document" span child) :=
  has.call rfl fun room => by simp [decode_rule, found]

/-- Between an array and its elements stand two calls. -/
theorem HasValue.array {results : List (Nat × Value)}
    (each : List.Forall₂ (fun node result => HasValue result.1 result.2 node)
      ((Node.rule "array" span child).rulesWithin ["value"]) results) :
    HasValue ((results.map Prod.fst).foldr max 0 + 2) (.array (results.map Prod.snd))
      (.rule "array" span child) := by
  have inside : ReadWithin _ _ fun room => match room with
      | 0 => .error .tooDeep
      | room + 1 => Value.array <$>
        ((Node.rule "array" span child).rulesWithin ["value"]).mapM (decode room) :=
    ((ReadWithin.mapM each).map Value.array).call rfl fun _ => rfl
  exact inside.call rfl fun room => by simp [decode_rule]

theorem HasValue.object {results : List (Nat × List Nat × Value)}
    (each : List.Forall₂ (fun node result => HasEntry result.1 result.2 node)
      ((Node.rule "object" span child).rulesWithin ["pair"]) results) :
    HasValue ((results.map Prod.fst).foldr max 0 + 2)
      (.object (setMembers (results.map Prod.snd))) (.rule "object" span child) := by
  have inside : ReadWithin _ _ fun room => match room with
      | 0 => .error .tooDeep
      | room + 1 => (Value.object <| setMembers ·) <$>
        ((Node.rule "object" span child).rulesWithin ["pair"]).mapM (decodePair room) :=
    ((ReadWithin.mapM each).map (Value.object <| setMembers ·)).call rfl fun _ => rfl
  exact inside.call rfl fun room => by simp [decode_rule]

theorem HasValue.string {points : List Nat}
    (decoded : decodeString (.rule "string" span child) = .ok points) :
    HasValue 1 (.str points) (.rule "string" span child) :=
  (ReadWithin.pure _).call rfl fun room => by simp [decode_rule, decoded]

theorem HasValue.number : HasValue 1 (numberValue (Node.rule "number" span child).text)
    (.rule "number" span child) :=
  (ReadWithin.pure _).call rfl fun room => by simp [decode_rule]

theorem HasValue.true : HasValue 1 (.bool .true) (.rule "true" span child) :=
  (ReadWithin.pure _).call rfl fun room => by simp [decode_rule]

theorem HasValue.false : HasValue 1 (.bool .false) (.rule "false" span child) :=
  (ReadWithin.pure _).call rfl fun room => by simp [decode_rule]

theorem HasValue.null : HasValue 1 .null (.rule "null" span child) :=
  (ReadWithin.pure _).call rfl fun room => by simp [decode_rule]

end Nodes

/-! ### Members -/

theorem setMember_of_not_mem {members : List (List Nat × Value)} {name : List Nat} (value : Value)
    (absent : name ∉ members.map Prod.fst) :
    setMember members name value = members ++ [(name, value)] := by
  induction members with
  | nil => rfl
  | cons member rest ih =>
    rw [List.map_cons, List.mem_cons, not_or] at absent
    rw [setMember, if_neg (Ne.symm absent.1), ih absent.2, List.cons_append]

theorem foldl_setMember_of_nodup {members left : List (List Nat × Value)}
    (distinct : ((members ++ left).map Prod.fst).Nodup) :
    left.foldl (fun all member => setMember all member.1 member.2) members = members ++ left := by
  induction left generalizing members with
  | nil => exact (List.append_nil members).symm
  | cons member rest ih =>
    have split : members ++ member :: rest = members ++ [member] ++ rest := by simp
    have absent : member.1 ∉ members.map Prod.fst := by
      rw [List.map_append, List.map_cons] at distinct
      exact fun among => (List.nodup_append.mp distinct).2.2 _ among _ List.mem_cons_self rfl
    rw [split] at distinct ⊢
    rw [List.foldl_cons, setMember_of_not_mem member.2 absent, ih distinct]

/-- Members with different names are all kept as they are. -/
theorem setMembers_of_nodup {members : List (List Nat × Value)}
    (distinct : (members.map Prod.fst).Nodup) : setMembers members = members :=
  foldl_setMember_of_nodup distinct

/-! ### Strings -/

theorem pieces_append {piece : Piece} (valid : piece.Valid) (rest : List Char) :
    pieces (piece.text ++ rest) = (piece :: ·) <$> pieces rest := by
  cases piece with
  | plain c =>
    obtain ⟨_, _, plain⟩ := valid
    simp only [Piece.text, List.singleton_append]
    rw [pieces]
    all_goals simp_all
  | short mark meant =>
    simp only [Piece.text, List.cons_append, List.nil_append]
    rw [pieces]
    · rw [show shortMeaning? mark = some meant from valid]
    · -- The mark of a unit is that of no other escape.
      rintro a b c d more rfl
      cases valid
  | unit a b c d =>
    simp only [Piece.text, List.cons_append, List.nil_append]
    rw [pieces, if_pos]
    exact List.all_eq_true.mpr valid

theorem pieces_flatMap {list : List Piece} (valid : ∀ piece ∈ list, piece.Valid) :
    pieces (list.flatMap Piece.text) = .ok list := by
  induction list with
  | nil => rfl
  | cons piece rest ih =>
    obtain ⟨first, others⟩ := List.forall_mem_cons.mp valid
    rw [List.flatMap_cons, pieces_append first, ih others]
    rfl

theorem unescape_chars (quoted : Syntax.Quoted) :
    unescape (String.ofList quoted.chars) = .ok (quoted.pieces.map Piece.codePoint) := by
  rw [unescape, String.toList_ofList, Syntax.Quoted.chars, List.drop_one, List.tail_cons,
    List.dropLast_concat, pieces_flatMap quoted.valid]
  rfl

/-! ### Numbers -/

/-- The digits from left to right are those of the usual notation to the base ten. -/
theorem decimalValue_eq (digits : List Char) :
    decimalValue digits = Nat.ofDigits 10 (digits.reverse.map fun c => c.toNat - '0'.toNat) := by
  rw [decimalValue, Nat.ofDigits_eq_foldr, ← List.foldl_reverse, List.map_reverse,
    List.reverse_reverse, List.foldl_map]
  refine List.foldl_ext _ _ 0 fun value digit _ => ?_
  rw [Nat.add_comm]
  rfl

theorem signedValue_of_digits {digits : List Char} (all : ∀ c ∈ digits, c.isDigit = true) :
    signedValue digits = decimalValue digits := by
  unfold signedValue
  split
  · cases all '-' List.mem_cons_self
  · cases all '+' List.mem_cons_self
  · rfl

end Peg.Json
