import Peg.Proofs.Natural.Positions

/-!
# Spans between positions

A span covers the way from one position to another if its bounds are theirs; its text is then what
is read on that way. Spans whose bounds are positions of an input lie within the input.
-/
namespace Peg

namespace Position

variable {first second third : Position}

theorem Reads.text_eq {text more : List Char} (reads : first.Reads text second)
    (also : first.Reads more second) : text = more :=
  reads.segment_eq.symm.trans also.segment_eq

theorem segment_self (here : Position) : here.segment here = [] :=
  (Precedes.refl here).reads.text_eq (.refl here)

theorem Precedes.remaining_lt (precedes : first.Precedes second)
    (further : first.offset < second.offset) : second.remaining < first.remaining := by
  have inside := second.offset_le
  rw [remaining, remaining, precedes.input_eq]
  rw [precedes.input_eq] at inside
  omega

/-- What is later and another place is further on. -/
theorem Precedes.offset_lt_of_not_same (precedes : first.Precedes second)
    (moved : ¬second.same first = true) : first.offset < second.offset := by
  refine Nat.lt_of_le_of_ne precedes.offset_le fun still => moved ?_
  simp [same, precedes.input_eq, still]

/-- What is read on the way to a position and from there on is what is read on the whole way. -/
theorem segment_append (early : first.Precedes second) (late : second.Precedes third) :
    first.segment second ++ second.segment third = first.segment third :=
  (early.reads.trans late.reads).text_eq (early.trans late).reads

theorem slice_eq_segment (ordered : first.Precedes second) :
    first.input.slice first.offset second.offset = String.ofList (first.segment second) := by
  have low : first.offset ≤ first.input.chars.size := first.offset_le
  have high : second.offset ≤ first.input.chars.size := by
    rw [← ordered.input_eq]
    exact second.offset_le
  unfold Input.slice Text.slice
  -- Neither bound lies beyond the end, so that none is moved.
  rw [Text.clampBound_of_le low, Text.clampBound_of_le high, Array.toList_extract,
    List.extract_eq_take_drop]
  rfl

/-! ### How far matching goes -/

/-- The position is so many characters further on. -/
structure Advances (here : Position) (count : Nat) (stop : Position) : Prop where
  input_eq : stop.input = here.input
  offset_eq : stop.offset = here.offset + count

theorem Advances.precedes {here stop : Position} {count : Nat}
    (advances : here.Advances count stop) : here.Precedes stop :=
  ⟨advances.input_eq, by rw [advances.offset_eq]; exact Nat.le_add_right _ _⟩

theorem Advances.offset_lt {here stop : Position} {count : Nat}
    (advances : here.Advances count stop) (some : 0 < count) : here.offset < stop.offset := by
  rw [advances.offset_eq]
  exact Nat.lt_add_of_pos_right some

variable {here stop : Position}

theorem matchLiteral_advances {text : String} (found : here.matchLiteral text = some stop) :
    here.Advances text.toList.length stop := by
  unfold matchLiteral at found
  split at found
  · cases found
    exact ⟨rfl, rfl⟩
  · cases found

theorem matchIgnoringCase_advances {text actual : String}
    (found : here.matchIgnoringCase text = some (stop, actual)) :
    here.Advances text.toList.length stop := by
  unfold matchIgnoringCase at found
  dsimp only at found
  split at found
  · split at found
    · cases found
      exact ⟨rfl, rfl⟩
    · cases found
  · cases found

theorem matchChar_advances {accept : Char → Bool} {c : Char}
    (found : here.matchChar accept = some (stop, c)) : here.Advances 1 stop := by
  unfold matchChar at found
  split at found
  · dsimp only at found
    split at found
    · cases found
      exact ⟨rfl, rfl⟩
    · cases found
  · cases found

theorem skipUntil_precedes {texts : List String} (found : here.skipUntil texts = some stop) :
    here.Precedes stop := by
  unfold skipUntil at found
  split at found
  next place reached =>
    cases found
    exact ⟨rfl, (Input.le_of_find?_eq_some reached).1⟩
  · cases found

/-- To skip a number of characters is never to leave the input. -/
theorem skip_eq_ok (here : Position) (count : Nat) :
    ∃ reached, here.skip count = .ok reached ∧
      ∀ stop, reached = some stop → here.Advances count stop := by
  unfold skip
  split
  next enough =>
    have inside : here.offset + count ≤ here.input.size := by
      have bound := here.offset_le
      unfold remaining at enough
      omega
    refine ⟨some ⟨here.input, here.offset + count, inside⟩, ?_, ?_⟩
    · rw [ofOffset, dif_pos ⟨by omega, by omega⟩]
      rfl
    · rintro _ ⟨⟩
      exact ⟨rfl, rfl⟩
  · exact ⟨none, rfl, nofun⟩

end Position

namespace Span

variable {span : Span} {here stop : Position}

/-- The span reaches from one position to a later one. -/
structure Covers (span : Span) (here stop : Position) : Prop extends here.Precedes stop where
  source_eq : span.source = here.input
  start_eq : span.start = here.offset
  stop_eq : span.stop = stop.offset

/-- The span is a part of the input. -/
structure Within (span : Span) (input : Input) : Prop where
  source_eq : span.source = input
  start_nonneg : 0 ≤ span.start
  stop_le : span.stop ≤ input.size

theorem Covers.within (covers : span.Covers here stop) : span.Within here.input := by
  refine ⟨covers.source_eq, ?_, ?_⟩
  · rw [covers.start_eq]
    exact Int.natCast_nonneg _
  · rw [covers.stop_eq, ← covers.input_eq]
    exact Int.ofNat_le.mpr stop.offset_le

theorem Covers.text_eq (covers : span.Covers here stop) :
    span.text = String.ofList (here.segment stop) := by
  rw [text, covers.source_eq, covers.start_eq, covers.stop_eq]
  exact Position.slice_eq_segment covers.toPrecedes

/-- Between positions in order there is a span. -/
theorem spanTo_eq_ok (ordered : here.Precedes stop) :
    ∃ span, here.spanTo stop = .ok span ∧ span.Covers here stop := by
  have bounds : (here.offset : Int) ≤ stop.offset := Int.ofNat_le.mpr ordered.offset_le
  have inputs : here.input.id = stop.input.id := congrArg Input.id ordered.input_eq.symm
  refine ⟨⟨here.input, here.offset, stop.offset, bounds⟩, ?_, ⟨ordered, rfl, rfl, rfl⟩⟩
  rw [Position.spanTo, if_pos inputs, between, dif_pos bounds]

end Span

end Peg
