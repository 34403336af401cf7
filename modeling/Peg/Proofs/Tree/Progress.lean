import Peg.Proofs.Tree.Building

/-!
# What matches nothing may be empty

The form of an expression tells truly what cannot match the empty text: a match that does not go on
is one of an expression that is possibly empty. In a row that does not go on no match does.
-/
namespace Peg

variable {env : Env} {atomic : Bool} {here stop : Position}

/-- Where a row stays where it is, so does each match in it. -/
theorem Row.still {tiles : List Tile} (row : Row env atomic here tiles stop)
    (forward : ∀ tile ∈ tiles, tile.start.Precedes tile.stop)
    (same : stop.offset = here.offset) : ∀ tile ∈ tiles, tile.stop.offset = tile.start.offset := by
  induction row with
  | nil => exact nofun
  | @snoc tiles middle tile row gap ih =>
    rw [List.forall_mem_append, List.forall_mem_singleton] at forward ⊢
    -- The row goes on to the gap, the gap to the last match, and that to the end.
    have early := (row.precedes forward.1).offset_le
    have skipped := gap.ignorable.precedes.offset_le
    have last := forward.2.offset_le
    exact ⟨ih forward.1 (by omega), by omega⟩

/-- A match that does not go on is one of an expression that may be empty. -/
theorem Tiled.possiblyEmpty {expr : Expr} {node : Option Node}
    (tiled : Tiled env expr atomic here node stop) (same : stop.offset = here.offset) :
    PossiblyEmpty env expr := by
  induction tiled with
  | @terminal leaf _ here _ _ _ _ before after attempted _ =>
    have fulfils : Action.Fulfils (.matching True fun _ => True) (leaf.attempt here)
        (LeafAt leaf.mayBeEmpty here) := leaf.attempt_fulfils here
    have ended := fulfils before fun _ _ => trivial
    rw [attempted] at ended
    cases ended.2 with
    | found _ further =>
      cases empty : leaf.mayBeEmpty with
      | true => exact .terminal empty
      | false => exact absurd same (Nat.ne_of_gt (further empty))
  | @seq first rest _ _ _ tiles _ whole row built _ ih =>
    have still := row.still (fun tile among => (built tile among).precedes) same
    refine .seq ?_
    rw [← whole, List.forall_mem_map]
    exact fun tile among => ih tile among (still tile among)
  | choice chosen _ _ ih => exact .choice (List.mem_of_getElem? chosen) (ih same)
  | optPresent | optAbsent => exact .opt
  | @rep body min _ _ _ last _ tiles _ enough all row built gap _ _ ih =>
    cases min with
    | zero => exact .repNone
    | succ min =>
      -- At least one match is asked for, and it did not go on either.
      obtain ⟨tile, among⟩ := List.exists_mem_of_length_pos (Nat.lt_of_lt_of_le min.succ_pos enough)
      have forward : ∀ tile ∈ tiles, tile.start.Precedes tile.stop := fun tile among =>
        (built tile among).precedes
      have ordered := (row.precedes forward).offset_le
      have skipped := gap.ignorable.precedes.offset_le
      have still := row.still forward (by omega) tile among
      exact .rep (all tile among ▸ ih tile among still)
  | positive => exact .positive
  | negative => exact .negative
  | restorable _ ih => exact .restorable (ih same)
  | push _ _ ih => exact .push (ih same)
  | silent _ ih => exact .rule (ih same)
  | rule _ _ _ ih => exact .rule (ih same)
  | ref defined _ ih => exact .ref defined (ih same)
  | lazy resolved _ ih => exact .lazy resolved (ih same)
  | ignored => exact .ignored
  | pair early late _ ih =>
    have ordered := early.precedes.offset_le
    have onward := late.precedes.offset_le
    exact .pair (ih (by omega))

end Peg
