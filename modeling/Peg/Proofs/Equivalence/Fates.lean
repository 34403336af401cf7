import Peg.Engine.Eval
import Peg.Proofs.Action.Simulation

/-!
# What matching comes to

What follows a match goes on from the place where it ends and from the items of the stack. Of an
outcome these are its fate; nodes, failures and the trace are left out. The rules below derive the
fate of an expression from those of its parts. They know nothing of trackers, snapshots or fuel: a
part that is taken back simply leaves the items from before. Nor do they know what was looked up, so
that they cannot tell that an expression has no text where it is to be shown. The fate of being
broken off for that is never derived.

Next to expressions there are tasks for what is left of them: of the items of a sequence, of the
alternatives of a choice, of a repetition after some matches, and of a round of skipping.
-/
namespace Peg

/-- What matching comes to, as far as anything that follows depends on it. -/
inductive Fate where
  /-- It matches up to a place, and leaves these items on the stack. -/
  | matched (stop : Position) (items : List Span)
  /-- It does not match, and leaves these items on the stack. -/
  | failed (items : List Span)
  /-- It is broken off, with these items on the stack. -/
  | broken (cause : Fault) (items : List Span)

namespace Fate

/-- Whether something matched. -/
def matches? : Fate → Bool
  | matched .. => true
  | failed _ | broken .. => false

/-- Whether an alternative is to be tried instead. -/
def fails : Fate → Bool
  | failed _ => true
  | matched .. | broken .. => false

/-- Whether matching goes on without a text that does not end. -/
def shown : Fate → Bool
  | broken .endlessText _ => false
  | matched .. | failed _ | broken .. => true

/-- The fate of an optional part. -/
def optional (here : Position) (before : List Span) : Fate → Fate
  | failed _ => matched here before
  | other => other

/-- The fate of a positive lookahead. -/
def positive (here : Position) (before : List Span) : Fate → Fate
  | matched _ _ => matched here before
  | failed _ => failed before
  | broken cause items => broken cause items

/-- The fate of a negative lookahead. -/
def negative (here : Position) (before : List Span) : Fate → Fate
  | matched _ _ => failed before
  | failed _ => matched here before
  | broken cause items => broken cause items

/-- The fate of a part that is taken back if it fails. -/
def restored (before : List Span) : Fate → Fate
  | failed _ => failed before
  | other => other

/-- The fate of a part whose span goes onto the stack. -/
def pushed (here : Position) : Fate → Fate
  | matched stop items =>
    match here.spanTo stop with
    | .ok span => matched stop (span :: items)
    | .error error => broken (.position error) items
  | other => other

/-- The fate of a repetition that ends after so many matches. -/
def repeated (min count : Nat) (here : Position) (items : List Span) : Fate :=
  if count < min then failed items else matched here items

end Fate

/-- The fate of an outcome, given where its value says that a match ends. -/
def Outcome.fateBy {α : Type} (stop? : α → Option Position) : Outcome α → Option Fate
  | .done value after =>
    match stop? value with
    | some stop => some (.matched stop after.stack.items)
    | none => some (.failed after.stack.items)
  | .fault cause after => some (.broken cause after.stack.items)
  | .exhausted => none

/-- The fate of an outcome, if it is one. -/
def Outcome.fate? : Outcome (Option Match) → Option Fate := Outcome.fateBy (·.map Match.stop)

section Endless

variable {α : Type} {outcome : Outcome α} {stop? : α → Option Position}

theorem Outcome.endless_of_fateBy {items : List Span}
    (comes : outcome.fateBy stop? = some (.broken .endlessText items)) : outcome.Endless := by
  cases outcome with
  | done value after =>
    rw [fateBy] at comes
    split at comes <;> cases comes
  | fault cause after =>
    cases comes
    exact ⟨after, rfl⟩
  | exhausted => cases comes

/-- A fate is shown unless the outcome is broken off for want of a text. -/
theorem Outcome.shown_of_fateBy (ends : ¬outcome.Endless) {fate : Fate}
    (comes : outcome.fateBy stop? = some fate) : fate.shown = true := by
  unfold Fate.shown
  split
  · exact absurd (endless_of_fateBy comes) ends
  · rfl
  · rfl
  · rfl

end Endless

/-- What is to be done. -/
inductive Task where
  /-- An expression is to be matched. -/
  | expr (expr : Expr) (here : Position) (atomic : Bool)
  /-- Ignored text is to be skipped, unless it may not stand here. -/
  | gap (forbidden : Bool) (here : Position)
  /-- The other items of a sequence are to be matched, all of them if it is `fresh`. -/
  | items (rest : List Expr) (here : Position) (fresh atomic : Bool)
  /-- The other alternatives of a choice are to be tried. -/
  | alternatives (rest : List Expr) (here : Position) (atomic : Bool)
  /-- A repetition is to go on after `count` matches. -/
  | loop (body : Expr) (min : Nat) (max : Option Nat) (atomic : Bool) (count : Nat)
    (here : Position)
  /-- The other kinds of ignored text are to be skipped, and then all of them again if there was
  `progress`. -/
  | skip (rest : List Expr) (here : Position) (progress : Bool)

/-- The stack of the given items, with no snapshot open, and nothing else. -/
def State.ofItems (items : List Span) : State := { stack := { items } }

/-- A task that starts with some items on the stack comes to a fate. -/
inductive ComesTo (env : Env) : Task → List Span → Fate → Prop
  | terminal {leaf : Terminal} {here : Position} {atomic : Bool} {items : List Span} {fate : Fate} :
      (leaf.attempt here (.ofItems items)).fate? = some fate →
      ComesTo env (.expr (.terminal leaf) here atomic) items fate
  | seq {first : Expr} {rest : List Expr} {here : Position} {atomic : Bool} {items : List Span}
      {fate : Fate} :
      ComesTo env (.items (first :: rest) here true atomic) items fate →
      ComesTo env (.expr (.seq first rest) here atomic) items fate
  | choice {first : Expr} {rest : List Expr} {here : Position} {atomic : Bool} {items : List Span}
      {fate : Fate} :
      ComesTo env (.alternatives (first :: rest) here atomic) items fate →
      ComesTo env (.expr (.choice first rest) here atomic) items fate
  | opt {body : Expr} {here : Position} {atomic : Bool} {items : List Span} {inner fate : Fate} :
      ComesTo env (.expr body here atomic) items inner → inner.optional here items = fate →
      ComesTo env (.expr (.opt body) here atomic) items fate
  | rep {body : Expr} {min : Nat} {max : Option Nat} {here : Position} {atomic : Bool}
      {items : List Span} {fate : Fate} :
      ComesTo env (.loop body min max atomic 0 here) items fate →
      ComesTo env (.expr (.rep body min max) here atomic) items fate
  | positive {body : Expr} {here : Position} {atomic : Bool} {items : List Span}
      {inner fate : Fate} :
      ComesTo env (.expr body here atomic) items inner → inner.positive here items = fate →
      ComesTo env (.expr (.positive body) here atomic) items fate
  | negative {body : Expr} {here : Position} {atomic : Bool} {items : List Span}
      {inner fate : Fate} :
      ComesTo env (.expr body here atomic) items inner → inner.negative here items = fate →
      ComesTo env (.expr (.negative body) here atomic) items fate
  | restorable {body : Expr} {here : Position} {atomic : Bool} {items : List Span}
      {inner fate : Fate} :
      ComesTo env (.expr body here atomic) items inner → inner.restored items = fate →
      ComesTo env (.expr (.restorable body) here atomic) items fate
  | push {body : Expr} {here : Position} {atomic : Bool} {items : List Span} {inner fate : Fate} :
      ComesTo env (.expr body here atomic) items inner → inner.pushed here = fate →
      ComesTo env (.expr (.push body) here atomic) items fate
  | rule {tag : Nat} {name : String} {kind : RuleKind} {body : Expr} {here : Position}
      {atomic : Bool} {items : List Span} {fate : Fate} :
      ComesTo env (.expr body here (kind.bodyAtomic atomic)) items fate →
      ComesTo env (.expr (.rule tag name kind body) here atomic) items fate
  | ref {name : String} {target : Expr} {here : Position} {atomic : Bool} {items : List Span}
      {fate : Fate} :
      env.rules.lookup name = some target → ComesTo env (.expr target here atomic) items fate →
      ComesTo env (.expr (.ref name) here atomic) items fate
  | refMissing {name : String} {here : Position} {atomic : Bool} {items : List Span} :
      env.rules.lookup name = none →
      ComesTo env (.expr (.ref name) here atomic) items (.broken (.undefinedRule name) items)
  | lazy {cell : LazyCell} {target : Expr} {here : Position} {atomic : Bool} {items : List Span}
      {fate : Fate} :
      env.definitions.resolve cell = .ok target →
      ComesTo env (.expr target here atomic) items fate →
      ComesTo env (.expr (.lazy cell) here atomic) items fate
  | lazyMissing {cell : LazyCell} {error : BuildError} {here : Position} {atomic : Bool}
      {items : List Span} :
      env.definitions.resolve cell = .error error →
      ComesTo env (.expr (.lazy cell) here atomic) items (.broken (.build error) items)
  | ignoredAtomic {here : Position} {items : List Span} :
      ComesTo env (.expr .ignored here true) items (.matched here items)
  | ignored {here : Position} {items : List Span} {fate : Fate} :
      ComesTo env (.skip env.skippers here false) items fate →
      ComesTo env (.expr .ignored here false) items fate
  | pairFirst {body : Expr} {here : Position} {atomic : Bool} {items : List Span} {fate : Fate} :
      ComesTo env (.expr body here atomic) items fate → fate.matches? = false →
      ComesTo env (.expr (.pair body) here atomic) items fate
  | pair {body : Expr} {here middle : Position} {atomic : Bool} {items between : List Span}
      {fate : Fate} :
      ComesTo env (.expr body here atomic) items (.matched middle between) →
      ComesTo env (.expr body middle atomic) between fate →
      ComesTo env (.expr (.pair body) here atomic) items fate
  | abstract {here : Position} {atomic : Bool} {items : List Span} :
      ComesTo env (.expr .abstract here atomic) items (.broken .noMatcher items)
  | gapNone {here : Position} {items : List Span} :
      ComesTo env (.gap true here) items (.matched here items)
  | gap {here : Position} {items : List Span} {fate : Fate} :
      ComesTo env (.expr .ignored here false) items fate →
      ComesTo env (.gap false here) items fate
  | itemsEnd {here : Position} {fresh atomic : Bool} {items : List Span} :
      ComesTo env (.items [] here fresh atomic) items (.matched here items)
  | itemsGap {expr : Expr} {rest : List Expr} {here : Position} {fresh atomic : Bool}
      {items : List Span} {fate : Fate} :
      ComesTo env (.gap (fresh || atomic) here) items fate → fate.matches? = false →
      ComesTo env (.items (expr :: rest) here fresh atomic) items fate
  | itemsStop {expr : Expr} {rest : List Expr} {here there : Position} {fresh atomic : Bool}
      {items between : List Span} {fate : Fate} :
      ComesTo env (.gap (fresh || atomic) here) items (.matched there between) →
      ComesTo env (.expr expr there atomic) between fate → fate.matches? = false →
      ComesTo env (.items (expr :: rest) here fresh atomic) items fate
  | itemsMore {expr : Expr} {rest : List Expr} {here there stop : Position} {fresh atomic : Bool}
      {items between after : List Span} {fate : Fate} :
      ComesTo env (.gap (fresh || atomic) here) items (.matched there between) →
      ComesTo env (.expr expr there atomic) between (.matched stop after) →
      ComesTo env (.items rest stop false atomic) after fate →
      ComesTo env (.items (expr :: rest) here fresh atomic) items fate
  | alternativesEnd {here : Position} {atomic : Bool} {items : List Span} :
      ComesTo env (.alternatives [] here atomic) items (.failed items)
  | alternativesFound {expr : Expr} {rest : List Expr} {here : Position} {atomic : Bool}
      {items : List Span} {fate : Fate} :
      ComesTo env (.expr expr here atomic) items fate → fate.fails = false →
      ComesTo env (.alternatives (expr :: rest) here atomic) items fate
  | alternativesMore {expr : Expr} {rest : List Expr} {here : Position} {atomic : Bool}
      {items after : List Span} {fate : Fate} :
      ComesTo env (.expr expr here atomic) items (.failed after) →
      ComesTo env (.alternatives rest here atomic) after fate →
      ComesTo env (.alternatives (expr :: rest) here atomic) items fate
  | loopFull {body : Expr} {min : Nat} {max : Option Nat} {atomic : Bool} {count : Nat}
      {here : Position} {items : List Span} {fate : Fate} :
      max.any (· ≤ count) = true → Fate.repeated min count here items = fate →
      ComesTo env (.loop body min max atomic count here) items fate
  | loopGap {body : Expr} {min : Nat} {max : Option Nat} {atomic : Bool} {count : Nat}
      {here : Position} {items : List Span} {fate : Fate} :
      max.any (· ≤ count) = false → ComesTo env (.gap (count == 0 || atomic) here) items fate →
      fate.matches? = false →
      ComesTo env (.loop body min max atomic count here) items fate
  | loopBroken {body : Expr} {min : Nat} {max : Option Nat} {atomic : Bool} {count : Nat}
      {here there : Position} {items between after : List Span} {cause : Fault} :
      max.any (· ≤ count) = false →
      ComesTo env (.gap (count == 0 || atomic) here) items (.matched there between) →
      ComesTo env (.expr body there atomic) between (.broken cause after) →
      ComesTo env (.loop body min max atomic count here) items (.broken cause after)
  | loopEnd {body : Expr} {min : Nat} {max : Option Nat} {atomic : Bool} {count : Nat}
      {here there : Position} {items between after : List Span} {fate : Fate} :
      max.any (· ≤ count) = false →
      ComesTo env (.gap (count == 0 || atomic) here) items (.matched there between) →
      ComesTo env (.expr body there atomic) between (.failed after) →
      Fate.repeated min count there after = fate →
      ComesTo env (.loop body min max atomic count here) items fate
  | loopLimit {body : Expr} {min : Nat} {max : Option Nat} {atomic : Bool} {count limit : Nat}
      {here there stop : Position} {items between after : List Span} :
      max.any (· ≤ count) = false →
      ComesTo env (.gap (count == 0 || atomic) here) items (.matched there between) →
      ComesTo env (.expr body there atomic) between (.matched stop after) →
      Clause.beyondLimit env (count + 1) = some limit →
      ComesTo env (.loop body min max atomic count here) items (.failed after)
  | loopMore {body : Expr} {min : Nat} {max : Option Nat} {atomic : Bool} {count : Nat}
      {here there stop : Position} {items between after : List Span} {fate : Fate} :
      max.any (· ≤ count) = false →
      ComesTo env (.gap (count == 0 || atomic) here) items (.matched there between) →
      ComesTo env (.expr body there atomic) between (.matched stop after) →
      Clause.beyondLimit env (count + 1) = none →
      ComesTo env (.loop body min max atomic (count + 1) stop) after fate →
      ComesTo env (.loop body min max atomic count here) items fate
  | skipEnd {here : Position} {items : List Span} :
      ComesTo env (.skip [] here false) items (.matched here items)
  | skipAgain {here : Position} {items : List Span} {fate : Fate} :
      ComesTo env (.skip env.skippers here false) items fate →
      ComesTo env (.skip [] here true) items fate
  | skipBroken {skipper : Expr} {rest : List Expr} {here : Position} {progress : Bool}
      {items after : List Span} {cause : Fault} :
      ComesTo env (.expr skipper here true) items (.broken cause after) →
      ComesTo env (.skip (skipper :: rest) here progress) items (.broken cause after)
  | skipNone {skipper : Expr} {rest : List Expr} {here : Position} {progress : Bool}
      {items after : List Span} {fate : Fate} :
      ComesTo env (.expr skipper here true) items (.failed after) →
      ComesTo env (.skip rest here progress) after fate →
      ComesTo env (.skip (skipper :: rest) here progress) items fate
  | skipStay {skipper : Expr} {rest : List Expr} {here stop : Position} {progress : Bool}
      {items after : List Span} {fate : Fate} :
      ComesTo env (.expr skipper here true) items (.matched stop after) → stop.same here = true →
      ComesTo env (.skip rest here progress) after fate →
      ComesTo env (.skip (skipper :: rest) here progress) items fate
  | skipMore {skipper : Expr} {rest : List Expr} {here stop : Position} {progress : Bool}
      {items after : List Span} {fate : Fate} :
      ComesTo env (.expr skipper here true) items (.matched stop after) →
      stop.same here = false → ComesTo env (.skip (skipper :: rest) stop true) after fate →
      ComesTo env (.skip (skipper :: rest) here progress) items fate

end Peg
