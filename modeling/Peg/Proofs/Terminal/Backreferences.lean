import Peg.Proofs.Machine.Readers
import Peg.Proofs.Repetition.Unrolling
import Peg.Proofs.Scan.Reach

/-!
# What backreferences match

A backreference matches the text of the top of the stack, of the whole stack or of a slice of it,
and may take from the stack what it matched. All of them try a text that is put together from spans,
top first, and record a mismatch where the input first differs from it. So two of them agree if the
texts do.

A slice is given by signed bounds. A bound that counts more places than the stack has, from either
end, is refused. Other bounds stand for the same places as in a slice of the list of the items.

## Main result

A slice matches the texts of the items that are sliced, the top and the whole stack are slices, and
to match and take is to match and then drop.
-/
namespace Peg

/-! ### Slices -/

/-- The bound counts no more places than there are, from either end. -/
def Reachable (size : Nat) (bound : Int) : Prop := -size ≤ bound ∧ bound ≤ size

/-- The bounds of a slice count no more places than there are. -/
def SliceWithin (size : Nat) (start : Int) (stop : Option Int) : Prop :=
  Reachable size start ∧ ∀ bound ∈ stop, Reachable size bound

/-- The elements from one signed bound up to another one, or up to the end. A negative bound counts
from the end, and a bound that lies outside stands for the nearest end. -/
def signedSlice {α : Type} (items : List α) (start : Int) (stop : Option Int) : List α :=
  let first := Text.clampBound items.length start
  let last := stop.elim items.length (Text.clampBound items.length)
  (items.drop first).take (last - first)

theorem signedSlice_one {α : Type} (item : α) (rest : List α) :
    signedSlice (item :: rest) 0 (some 1) = [item] := by
  simp [signedSlice, Text.clampBound]

theorem signedSlice_whole {α : Type} (items : List α) : signedSlice items 0 none = items := by
  simp [signedSlice, Text.clampBound]

namespace Stack

variable {α : Type} {size : Nat} {bound start : Int} {stop : Option Int}

theorem place?_of_reachable (reachable : Reachable size bound) :
    place? size bound = some (Text.clampBound size bound) := by
  obtain ⟨low, high⟩ := reachable
  -- Within reach, a bound is not moved to the nearest end.
  unfold place? Text.clampBound
  split_ifs <;> grind

theorem place?_of_not_reachable (unreachable : ¬Reachable size bound) :
    place? size bound = none := by
  unfold Reachable at unreachable
  unfold place?
  split_ifs <;> grind

/-- Within reach, a slice of the stack is the slice of the list of its items. -/
theorem slice?_of_within {stack : Stack α} (within : SliceWithin stack.size start stop) :
    stack.slice? start stop = some (signedSlice stack.items start stop) := by
  obtain ⟨first, last⟩ := within
  cases stop with
  | none =>
    simp only [slice?, place?_of_reachable first]
    rfl
  | some bound =>
    simp only [slice?, place?_of_reachable first, place?_of_reachable (last bound rfl)]
    rfl

/-- If either bound is out of reach, there is no slice. -/
theorem slice?_of_not_within {stack : Stack α} (without : ¬SliceWithin stack.size start stop) :
    stack.slice? start stop = none := by
  by_cases first : Reachable stack.size start
  · cases stop with
    | none => exact absurd ⟨first, nofun⟩ without
    | some bound =>
      have last : ¬Reachable stack.size bound := fun last =>
        without ⟨first, fun _ same => Option.mem_some.mp same ▸ last⟩
      simp only [slice?, place?_of_reachable first, place?_of_not_reachable last]
      rfl
  · simp only [slice?, place?_of_not_reachable first]
    rfl

theorem slice?_whole (stack : Stack α) : stack.slice? 0 none = some stack.items := by
  have within : SliceWithin stack.size 0 none := ⟨⟨by omega, Int.natCast_nonneg _⟩, nofun⟩
  rw [slice?_of_within within, signedSlice_whole]

theorem slice?_one {stack : Stack α} {top : α} (first : stack.peek? = some top) :
    stack.slice? 0 (some 1) = some [top] := by
  obtain ⟨rest, stacked⟩ := List.head?_eq_some_iff.mp first
  have size : stack.size = rest.length + 1 := by rw [Stack.size, stacked, List.length_cons]
  have within : SliceWithin stack.size 0 (some 1) := by
    refine ⟨⟨by omega, by omega⟩, ?_⟩
    rintro _ ⟨⟩
    exact ⟨by omega, by omega⟩
  rw [slice?_of_within within, stacked, signedSlice_one]

end Stack

/-! ### Texts that are tried -/

/-- So many characters agree with the input, and then the input ends or has another character. -/
structure DiffersAfter (text input : List Char) (count : Nat) : Prop where
  inside : count < text.length
  agree : input.take count = text.take count
  differ : input[count]? ≠ text[count]?

theorem differsAfter_agreeing {text input : List Char} (differs : ∀ tail, input ≠ text ++ tail) :
    DiffersAfter text input (Scan.agreeing text input) := by
  induction text generalizing input with
  | nil => exact absurd rfl (differs input)
  | cons c text ih =>
    cases input with
    | nil => exact ⟨Nat.zero_lt_succ _, rfl, nofun⟩
    | cons d input =>
      rw [Scan.agreeing]
      split
      next same =>
        subst same
        obtain ⟨inside, agree, differ⟩ := ih fun tail front =>
          differs tail (congrArg (d :: ·) front)
        exact ⟨Nat.succ_lt_succ inside, congrArg (d :: ·) agree, differ⟩
      next other => exact ⟨Nat.zero_lt_succ _, rfl, fun same => other (Option.some.inj same)⟩

/-- How it ends to try a text: either behind the text, in a state that the match may have changed,
or with a mismatch recorded where the input first differs from the text. -/
inductive TextTried (here : Position) (text : String) (before after : State) :
    Outcome (Option Position) → Prop
  | matched {stop : Position} :
      here.Reads text.toList stop → TextTried here text before after (.done (some stop) after)
  | differed {count : Nat} : DiffersAfter text.toList here.rest count →
      TextTried here text before after (.done none { before with
        tracker := before.tracker.recordFailure (.literal text false) (here.offset + count) })

namespace Terminal

/-- The end of trying a text. -/
def tried (here : Position) (text : String) (before after : State) : Outcome (Option Position) :=
  match here.matchLiteral text with
  | some stop => .done (some stop) after
  | none => .done none { before with
      tracker := before.tracker.recordFailure (.literal text false)
        (here.mismatchOffset text false) }

theorem textTried_tried (here : Position) (text : String) (before after : State) :
    TextTried here text before after (tried here text before after) := by
  unfold tried
  cases found : here.matchLiteral text with
  | some stop => exact .matched (Position.reads_of_matchLiteral found)
  | none =>
    have offset : here.mismatchOffset text false =
        here.offset + Scan.agreeing text.toList here.rest := by
      rw [Position.mismatchOffset, if_neg Bool.false_ne_true, Scan.agreement_eq]
      rfl
    rw [offset, Int.natCast_add]
    exact .differed (differsAfter_agreeing (Position.not_front_of_matchLiteral found))

section Attempts

variable (here : Position) {before : State} (kind : TerminalKind)
  (consume : Stack Span → Stack Span)

/-- A text is tried, and then the stack is changed and a node is made of the span. -/
theorem matchText_tried (text : String) (node : Span → Option Node) :
    ((matchText here text >>= fun stop =>
      match stop with
      | none => pure none
      | some stop => Action.changeItems consume >>= fun _ =>
          Action.span here stop >>= fun span => pure (some ⟨stop, node span⟩))
        before).withoutNodes =
      tried here text before { before with stack := consume before.stack } := by
  cases matched : here.matchLiteral text with
  | none =>
    rw [matchText, tried, matched]
    rfl
  | some stop =>
    have ordered := (Position.reads_of_matchLiteral matched).precedes
    obtain ⟨span, answered⟩ := Clause.answer_done ordered node
      { before with stack := consume before.stack }
    have texts : matchText here text before = .done (some stop) before := by
      rw [matchText, matched]
      rfl
    have changed : Action.changeItems consume before =
        .done () { before with stack := consume before.stack } := rfl
    rw [Action.bind_of_done texts]
    dsimp only
    rw [Action.bind_of_done changed, answered, tried, matched]
    rfl

theorem matchTop_tried {top : Span} (first : before.stack.peek? = some top) :
    (matchTop kind consume here before).withoutNodes =
      tried here top.text before { before with stack := consume before.stack } := by
  rw [matchTop_eq, Action.bind_of_done (Action.gets_eq_done first)]
  exact matchText_tried here consume top.text fun span => some (.terminal kind span top.text)

/-- Where the stack has no item, that is recorded. -/
theorem matchTop_missed (empty : before.stack.peek? = none) :
    matchTop kind consume here before = .done none { before with
      tracker := before.tracker.recordEmptyStack here.offset } := by
  rw [matchTop_eq, Action.bind_of_done (Action.gets_eq_done empty)]
  rfl

theorem matchSlice_tried {start : Int} {stop : Option Int} {spans : List Span}
    (sliced : before.stack.slice? start stop = some spans) :
    (matchSlice kind consume start stop here before).withoutNodes =
      tried here (String.join (spans.map Span.text)) before
        { before with stack := consume before.stack } := by
  rw [matchSlice_eq, Action.bind_of_done (Action.gets_eq_done sliced)]
  exact matchText_tried here consume _ fun span => some (.terminal kind span span.text)

/-- Where the stack has no such slice, that is recorded. -/
theorem matchSlice_missed {start : Int} {stop : Option Int}
    (refused : before.stack.slice? start stop = none) :
    matchSlice kind consume start stop here before = .done none { before with
      tracker := before.tracker.recordOutOfBounds start stop here.offset } := by
  rw [matchSlice_eq, Action.bind_of_done (Action.gets_eq_done refused)]
  rfl

end Attempts

/-- To drop is to match nothing and take the top. -/
theorem drop_done (here : Position) {state : State} {top : Span}
    (first : state.stack.peek? = some top) :
    ∃ node, drop.attempt here state =
      .done (some (Match.mk here node)) { state with stack := state.stack.pop.2 } := by
  have changed : Action.changeItems (fun stack => stack.pop.2) state =
      .done () { state with stack := state.stack.pop.2 } := rfl
  rw [attempt_drop, Action.bind_of_done (Action.gets_eq_done first)]
  dsimp only
  rw [Action.bind_of_done changed]
  obtain ⟨span, answered⟩ := Clause.answer_done (.refl here)
    (fun span => some (.terminal .drop span top.text)) { state with stack := state.stack.pop.2 }
  exact ⟨_, answered⟩

end Terminal

/-! ### Taking what was matched -/

theorem Outcome.eq_done_of_withoutNodes {outcome : Outcome (Option Match)}
    {stop? : Option Position} {after : State} (ended : outcome.withoutNodes = .done stop? after) :
    ∃ result, outcome = .done result after ∧ result.map Match.stop = stop? := by
  cases outcome with
  | done result left =>
    cases ended
    exact ⟨result, rfl, rfl⟩
  | fault cause left => cases ended
  | exhausted => cases ended

namespace Eval

variable (env : Env) {start here : Position}

/-- As many items as the stack has can be dropped in a row. -/
theorem items_drops (ordered : start.Precedes here) (fuel : Nat) {count : Nat}
    (found : Array (Option Node)) {state : State} (enough : count ≤ state.stack.items.length) :
    (items (eval env (fuel + 1)) true start (List.replicate count (.terminal .drop)) here found
        state).withoutNodes =
      .done (some here) { state with stack := state.stack.popMany count } := by
  induction count generalizing found state with
  | zero =>
    obtain ⟨span, answered⟩ := Clause.answer_done ordered
      (fun span => some (.seq span found.toList)) state
    exact congrArg Outcome.withoutNodes answered
  | succ count ih =>
    obtain ⟨top, rest, stacked⟩ := List.exists_cons_of_length_pos (Nat.zero_lt_of_lt enough)
    have first : state.stack.peek? = some top := by rw [Stack.peek?, stacked]; rfl
    obtain ⟨node, dropped⟩ := Terminal.drop_done here first
    have fewer : count ≤ state.stack.pop.2.items.length := by
      rw [Stack.pop_items, stacked]
      rw [stacked] at enough
      exact Nat.le_of_succ_le_succ enough
    -- Matched atomically, nothing is skipped in front of the next item.
    rw [List.replicate_succ, items, Bool.or_true, gapUnless, if_pos rfl, pure_bind]
    change ((Terminal.drop.attempt here >>= _) state).withoutNodes = _
    rw [Action.bind_of_done dropped]
    exact ih _ fewer

/-- A sequence fails if its first item does. -/
theorem seq_failed {leaf : Terminal} {before after : State}
    (failed : leaf.attempt here before = .done none after) (rest : List Expr) (fuel : Nat) :
    eval env (fuel + 2) (.seq (.terminal leaf) rest) here true before = .done none after := by
  change (leaf.attempt here >>= _) before = _
  rw [Action.bind_of_done failed]
  rfl

/-- To try a text and then drop some items is to try the text and take so many items. -/
theorem seq_drops {leaf : Terminal} {before : State} {text : String}
    (tries : (leaf.attempt here before).withoutNodes = Terminal.tried here text before before)
    {count : Nat} (enough : count ≤ before.stack.items.length) (fuel : Nat) :
    (eval env (fuel + 2) (.seq (.terminal leaf) (List.replicate count (.terminal .drop))) here true
        before).withoutNodes =
      Terminal.tried here text before { before with stack := before.stack.popMany count } := by
  rw [Terminal.tried] at tries ⊢
  cases matched : here.matchLiteral text with
  | none =>
    rw [matched] at tries
    obtain ⟨result, attempted, ended⟩ := Outcome.eq_done_of_withoutNodes tries
    cases Option.map_eq_none_iff.mp ended
    rw [seq_failed env attempted]
    rfl
  | some stop =>
    rw [matched] at tries
    obtain ⟨result, attempted, ended⟩ := Outcome.eq_done_of_withoutNodes tries
    obtain ⟨item, rfl, rfl⟩ := Option.map_eq_some_iff.mp ended
    change ((leaf.attempt here >>= _) before).withoutNodes = _
    rw [Action.bind_of_done attempted]
    exact items_drops env (Position.reads_of_matchLiteral matched).precedes fuel _ enough

end Eval

/-! ### Main result -/

section Main

variable {env : Env} {left right : Expr} {leaf : Terminal} {here : Position} {atomic : Bool}
  {before : State}

/-- Matching the one expression ends as matching the other one does with nothing skipped in
between, but for the nodes. -/
def EndsAsDirect (env : Env) (left right : Expr) (here : Position) (atomic : Bool)
    (before : State) : Prop :=
  ∀ outcome, outcome ≠ .exhausted →
    ((∃ moves, (run env moves left here atomic before).withoutNodes = outcome) ↔
      ∃ moves, (run env moves right here true before).withoutNodes = outcome)

/-- Where the evaluation ends, the machine ends alike. -/
theorem exists_run_iff_of_eval {fuel : Nat} {ends outcome : Outcome (Option Position)}
    (evaluated : (eval env fuel left here atomic before).withoutNodes = ends)
    (ended : ends ≠ .exhausted) (settled : outcome ≠ .exhausted) :
    (∃ moves, (run env moves left here atomic before).withoutNodes = outcome) ↔
      ends = outcome := by
  subst evaluated
  have reached := Outcome.withoutNodes_eq_exhausted.not.mp ended
  obtain ⟨moves, same⟩ := Machine.run_of_eval reached
  constructor
  · rintro ⟨others, rfl⟩
    have also := Outcome.withoutNodes_eq_exhausted.not.mp settled
    rw [← same] at reached ⊢
    rw [Machine.run_unique reached also]
  · rintro rfl
    exact ⟨moves, by rw [same]⟩

/-- Two evaluations that end alike, each matched atomically or not. -/
theorem exists_run_iff_exists_run {flag : Bool} {fuel other : Nat}
    {ends outcome : Outcome (Option Position)}
    (first : (eval env fuel left here atomic before).withoutNodes = ends)
    (second : (eval env other right here flag before).withoutNodes = ends)
    (ended : ends ≠ .exhausted) (settled : outcome ≠ .exhausted) :
    (∃ moves, (run env moves left here atomic before).withoutNodes = outcome) ↔
      ∃ moves, (run env moves right here flag before).withoutNodes = outcome :=
  (exists_run_iff_of_eval first ended settled).trans
    (exists_run_iff_of_eval second ended settled).symm

theorem Terminal.tried_ne_exhausted (here : Position) (text : String) (before after : State) :
    Terminal.tried here text before after ≠ .exhausted := by
  unfold Terminal.tried
  split <;> exact nofun

/-- Terminals that try the same text and change the stack alike come to the same ends. -/
theorem sameEnds_of_tried {also : Terminal} {text : String} {after : State}
    (first : (leaf.attempt here before).withoutNodes = Terminal.tried here text before after)
    (second : (also.attempt here before).withoutNodes = Terminal.tried here text before after) :
    SameEnds env (.terminal leaf) (.terminal also) here atomic before := by
  have forth : (eval env 1 (.terminal leaf) here atomic before).withoutNodes = _ := first
  have back : (eval env 1 (.terminal also) here atomic before).withoutNodes = _ := second
  exact fun _ => exists_run_iff_exists_run forth back
    (Terminal.tried_ne_exhausted here text before after)

/-- A terminal that tries what another one tries, and takes some items, ends as the other one with
so many drops behind it. -/
theorem endsAsDirect_of_tried {also : Terminal} {text : String} {count : Nat}
    (enough : count ≤ before.stack.items.length)
    (takes : (leaf.attempt here before).withoutNodes =
      Terminal.tried here text before { before with stack := before.stack.popMany count })
    (looks : (also.attempt here before).withoutNodes = Terminal.tried here text before before) :
    EndsAsDirect env (.terminal leaf)
      (.seq (.terminal also) (List.replicate count (.terminal .drop))) here atomic before := by
  have forth : (eval env 1 (.terminal leaf) here atomic before).withoutNodes = _ := takes
  have back := Eval.seq_drops env looks enough 0
  exact fun _ => exists_run_iff_exists_run forth back
    (Terminal.tried_ne_exhausted here text before _)

theorem pop_endsAsDirect : EndsAsDirect env (.terminal .pop)
    (.seq (.terminal .peek) [.terminal .drop]) here atomic before := by
  cases first : before.stack.peek? with
  | some top =>
    have enough : 1 ≤ before.stack.items.length := by
      rw [Stack.peek?] at first
      exact List.length_pos_of_mem (List.mem_of_mem_head? first)
    exact endsAsDirect_of_tried enough
      (Terminal.matchTop_tried here .pop (fun stack => stack.pop.2) first)
      (Terminal.matchTop_tried here .peek id first)
  | none =>
    -- Nothing is there to be matched, and so nothing is dropped.
    have forth : (eval env 1 (.terminal .pop) here atomic before).withoutNodes = _ :=
      congrArg Outcome.withoutNodes
        (Terminal.matchTop_missed here .pop (fun stack => stack.pop.2) first)
    have failed : Terminal.peek.attempt here before = _ :=
      Terminal.matchTop_missed here .peek id first
    have back := congrArg Outcome.withoutNodes (Eval.seq_failed env failed [.terminal .drop] 0)
    exact fun _ => exists_run_iff_exists_run forth back (by rintro ⟨⟩)

end Main

/-- From every place and in every state with `n` items on the stack:
a slice fails, and records that there is no such slice, if one of its bounds lies outside of `-n`
to `n`. Otherwise it tries the texts of the items in the slice of the list of items, top first, one
after the other: it ends behind them if the input goes on with them, and else it records a mismatch
where the input first differs from them, and in neither case does it change the stack. To match the
whole stack is to match the slice of all items, and, if there is an item, to match the top is to
match the slice of one. To match and take the top is to match it and then to drop it, and to match
and take the whole stack is to match it and then to drop `n` items. -/
theorem backreferences_agree (env : Env) (here : Position) (atomic : Bool) (before : State) :
    (∀ start stop, ¬SliceWithin before.stack.size start stop →
        Finishes env (.terminal (.peekSlice start stop)) here atomic before none { before with
          tracker := before.tracker.recordOutOfBounds start stop here.offset }) ∧
      (∀ start stop, SliceWithin before.stack.size start stop → ∃ moves, TextTried here
        (String.join ((signedSlice before.stack.items start stop).map Span.text)) before before
        (run env moves (.terminal (.peekSlice start stop)) here atomic before).withoutNodes) ∧
      SameEnds env (.terminal .peekAll) (.terminal (.peekSlice 0 none)) here atomic before ∧
      (before.stack.items ≠ [] →
        SameEnds env (.terminal .peek) (.terminal (.peekSlice 0 (some 1))) here atomic before) ∧
      EndsAsDirect env (.terminal .pop) (.seq (.terminal .peek) [.terminal .drop]) here atomic
        before ∧
      EndsAsDirect env (.terminal .popAll)
        (.seq (.terminal .peekAll) (List.replicate before.stack.size (.terminal .drop))) here atomic
        before := by
  refine ⟨fun start stop without => ?_, fun start stop within => ?_, ?_, fun stacked => ?_,
    pop_endsAsDirect, ?_⟩
  · have refused := Stack.slice?_of_not_within without
    exact finishes_iff_eval.mpr ⟨1, Terminal.matchSlice_missed here .peekSlice id refused⟩
  · have sliced := Stack.slice?_of_within within
    have evaluated : (eval env 1 (.terminal (.peekSlice start stop)) here atomic
        before).withoutNodes = _ := Terminal.matchSlice_tried here .peekSlice id sliced
    have ended := Terminal.tried_ne_exhausted here
      (String.join ((signedSlice before.stack.items start stop).map Span.text)) before before
    obtain ⟨moves, ran⟩ := (exists_run_iff_of_eval evaluated ended ended).mpr rfl
    exact ⟨moves, ran ▸ Terminal.textTried_tried here _ before before⟩
  · exact sameEnds_of_tried (Terminal.matchSlice_tried here .peekAll id before.stack.slice?_whole)
      (Terminal.matchSlice_tried here .peekSlice id before.stack.slice?_whole)
  · obtain ⟨top, rest, items⟩ := List.exists_cons_of_ne_nil stacked
    have first : before.stack.peek? = some top := by rw [Stack.peek?, items]; rfl
    have slice := Terminal.matchSlice_tried here .peekSlice id (Stack.slice?_one first)
    rw [List.map_singleton, show String.join [top.text] = top.text by simp [String.join]] at slice
    exact sameEnds_of_tried (Terminal.matchTop_tried here .peek id first) slice
  · exact endsAsDirect_of_tried (Nat.le_refl _)
      (Terminal.matchSlice_tried here .popAll Stack.clear before.stack.slice?_whole)
      (Terminal.matchSlice_tried here .peekAll id before.stack.slice?_whole)

/-- Two letters, and the same letters in reverse. -/
def mirrored : Input := ⟨0, #['a', 'b', 'b', 'a']⟩

/-- The first two letters are on the stack. -/
def mirroredState : State where
  stack := { items := [⟨mirrored, 1, 2, by decide⟩, ⟨mirrored, 0, 1, by decide⟩] }

/-- Behind the first two letters, the fourth item from the top is out of reach, the last but one
from the bottom is the second letter, and so is the top. -/
theorem letters_referred_backwards :
    let env : Env := { input := mirrored }
    let here : Position := ⟨mirrored, 2, by decide⟩
    (¬SliceWithin 2 3 none ∧
        Finishes env (.terminal (.peekSlice 3 none)) here false mirroredState none
          { mirroredState with
            tracker := mirroredState.tracker.recordOutOfBounds 3 none here.offset }) ∧
      (SliceWithin 2 (-2) (some (-1)) ∧ ∃ moves, TextTried here "b" mirroredState mirroredState
        (run env moves (.terminal (.peekSlice (-2) (some (-1)))) here false
          mirroredState).withoutNodes) ∧
      mirroredState.stack.items ≠ [] ∧
        SameEnds env (.terminal .peek) (.terminal (.peekSlice 0 (some 1))) here false
          mirroredState := by
  intro env here
  have without : ¬SliceWithin 2 3 none := fun within => absurd within.1.2 (by decide)
  have within : SliceWithin 2 (-2) (some (-1)) := by
    refine ⟨⟨by decide, by decide⟩, ?_⟩
    rintro _ ⟨⟩
    exact ⟨by decide, by decide⟩
  have agree := backreferences_agree env here false mirroredState
  exact ⟨⟨without, agree.1 3 none without⟩, ⟨within, agree.2.1 (-2) (some (-1)) within⟩, nofun,
    agree.2.2.2.1 nofun⟩

end Peg
