import Peg.Proofs.Coupling.InPlace
import Peg.Proofs.Equivalence.Completeness
import Peg.Proofs.Equivalence.Laws
import Peg.Proofs.Parse.ShowsAll

/-!
# Rewriting in every context

An expression may be rewritten by the laws anywhere inside it, inside the rules and definitions it
refers to, and inside the text to be ignored. Nodes and failures may then be others, but none of
them ever decides on a later match: what the expression comes to stays the same.

## Main result

`rewriting_keeps_fates_where_texts_end`: on expressions and environments that differ by rewriting
only, the machine comes to an end on both or on neither, and then it accepts both or none of them,
at the same place and with the same items on the stack. What rewriting does change is which
lookaheads fail on the way. Each of them shows its body, and where the text of a body does not end,
the parse is broken off; so two rewritten expressions may differ in this.
-/
namespace Peg

/-- One expression can be written as the other one, by laws that hold in every context. -/
inductive Rewrites : Expr → Expr → Prop
  | refl (expr : Expr) : Rewrites expr expr
  | symm {first second : Expr} : Rewrites first second → Rewrites second first
  | trans {first second third : Expr} :
      Rewrites first second → Rewrites second third → Rewrites first third
  /-- A sequence in a sequence is flattened. -/
  | flattenSeq {first head other : Expr} {rest tail others early late : List Expr} :
      head :: tail = early ++ ([.seq first rest] ++ late) →
      other :: others = early ++ (first :: rest ++ late) →
      Rewrites (.seq head tail) (.seq other others)
  /-- A choice in a choice is flattened. -/
  | flattenChoice {first head other : Expr} {rest tail others early late : List Expr} :
      head :: tail = early ++ ([.choice first rest] ++ late) →
      other :: others = early ++ (first :: rest ++ late) →
      Rewrites (.choice head tail) (.choice other others)
  | optChoice (body : Expr) :
      Rewrites (.opt body) (.choice (.restorable body) [.terminal .empty])
  | positiveNegative (body : Expr) : Rewrites (.positive body) (.negative (.negative body))
  | restorableTwice (body : Expr) : Rewrites (.restorable (.restorable body)) (.restorable body)
  /-- An item of a sequence is rewritten. -/
  | seq {expr changed head other : Expr} {tail others early late : List Expr} :
      Rewrites expr changed → head :: tail = early ++ ([expr] ++ late) →
      other :: others = early ++ ([changed] ++ late) →
      Rewrites (.seq head tail) (.seq other others)
  /-- An alternative of a choice is rewritten. -/
  | choice {expr changed head other : Expr} {tail others early late : List Expr} :
      Rewrites expr changed → head :: tail = early ++ ([expr] ++ late) →
      other :: others = early ++ ([changed] ++ late) →
      Rewrites (.choice head tail) (.choice other others)
  | opt {expr changed : Expr} : Rewrites expr changed → Rewrites (.opt expr) (.opt changed)
  | rep {expr changed : Expr} (min : Nat) (max : Option Nat) :
      Rewrites expr changed → Rewrites (.rep expr min max) (.rep changed min max)
  | positive {expr changed : Expr} :
      Rewrites expr changed → Rewrites (.positive expr) (.positive changed)
  | negative {expr changed : Expr} :
      Rewrites expr changed → Rewrites (.negative expr) (.negative changed)
  | restorable {expr changed : Expr} :
      Rewrites expr changed → Rewrites (.restorable expr) (.restorable changed)
  | push {expr changed : Expr} : Rewrites expr changed → Rewrites (.push expr) (.push changed)
  | rule {expr changed : Expr} (tag : Nat) (name : String) (kind : RuleKind) :
      Rewrites expr changed → Rewrites (.rule tag name kind expr) (.rule tag name kind changed)
  | pair {expr changed : Expr} : Rewrites expr changed → Rewrites (.pair expr) (.pair changed)

/-- A refinement of a row that stands in a longer one is a refinement of the longer one. -/
theorem RowRefines.within {env : Env} {row changed early late tail others : List Expr}
    {head other : Expr} (refines : RowRefines env row changed)
    (before : head :: tail = early ++ (row ++ late))
    (after : other :: others = early ++ (changed ++ late)) :
    Refines env (.seq head tail) (.seq other others) := by
  refine RowRefines.seq ?_
  rw [before, after]
  exact refines.replace early late

theorem OptionsRefine.within {env : Env} {options changed early late tail others : List Expr}
    {head other : Expr} (refines : OptionsRefine env options changed)
    (before : head :: tail = early ++ (options ++ late))
    (after : other :: others = early ++ (changed ++ late)) :
    Refines env (.choice head tail) (.choice other others) := by
  refine OptionsRefine.choice ?_
  rw [before, after]
  exact refines.replace early late

/-- In one and the same environment, rewritten expressions come to the same fates. -/
theorem Rewrites.equivalent (env : Env) {expr other : Expr} (rewrites : Rewrites expr other) :
    Equivalent env expr other := by
  induction rewrites with
  | refl expr => exact .refl env expr
  | symm _ same => exact same.symm
  | trans _ _ early late => exact early.trans late
  | @flattenSeq first _ _ rest _ _ _ _ nested flat =>
    exact ⟨(RowRefines.flatten env first rest).within nested flat,
      (RowRefines.unflatten env first rest).within flat nested⟩
  | @flattenChoice first _ _ rest _ _ _ _ nested flat =>
    exact ⟨OptionsRefine.within (OptionsRefine.flatten env first rest) nested flat,
      OptionsRefine.within (OptionsRefine.unflatten env first rest) flat nested⟩
  | optChoice body => exact .opt_choice env body
  | positiveNegative body => exact .positive_negative env body
  | restorableTwice body => exact .restorable_twice env body
  | seq _ before after same =>
    exact ⟨(RowRefines.single same.onward).within before after,
      (RowRefines.single same.back).within after before⟩
  | choice _ before after same =>
    exact ⟨OptionsRefine.within (OptionsRefine.single same.onward) before after,
      OptionsRefine.within (OptionsRefine.single same.back) after before⟩
  | opt _ same => exact same.context Refines.opt
  | rep min max _ same => exact same.context fun refines => Refines.rep refines min max
  | positive _ same => exact same.context Refines.positive
  | negative _ same => exact same.context Refines.negative
  | restorable _ same => exact same.context Refines.restorable
  | push _ same => exact same.context Refines.push
  | rule tag name kind _ same =>
    exact same.context fun refines => Refines.rule refines tag name kind
  | pair _ same => exact same.context Refines.pair

/-! ### Environments -/

/-- The environments differ by rewriting, in their rules, definitions and ignored text, and in what
never decides on a match. -/
structure Env.Rewritten (left right : Env) : Prop where
  rules : ∀ name, Option.Rel Rewrites (left.rules.lookup name) (right.rules.lookup name)
  definitions : ∀ cell, AnswersAlike Rewrites (left.definitions.resolve cell)
    (right.definitions.resolve cell)
  whitespace : Option.Rel Rewrites left.whitespace right.whitespace
  comment : Option.Rel Rewrites left.comment right.comment
  repeatLimit : left.repeatLimit = right.repeatLimit

namespace Env.Rewritten

variable {left right : Env}

theorem symm (rewritten : left.Rewritten right) : right.Rewritten left := by
  have symmetric : flip Rewrites = Rewrites := funext₂ fun _ _ => propext ⟨.symm, .symm⟩
  exact
    { rules := fun name => symmetric ▸ rel_flip (rewritten.rules name)
      definitions := fun cell => symmetric ▸ (rewritten.definitions cell).flip
      whitespace := symmetric ▸ rel_flip rewritten.whitespace
      comment := symmetric ▸ rel_flip rewritten.comment
      repeatLimit := rewritten.repeatLimit.symm }

variable (rewritten : left.Rewritten right) {name : String} {cell : LazyCell}
include rewritten

theorem lookup {target : Expr} (known : left.rules.lookup name = some target) :
    ∃ other, right.rules.lookup name = some other ∧ Rewrites target other := by
  have alike := rewritten.rules name
  rw [known] at alike
  generalize right.rules.lookup name = found at alike
  cases alike with
  | some rewrites => exact ⟨_, rfl, rewrites⟩

theorem lookup_missing (missing : left.rules.lookup name = none) :
    right.rules.lookup name = none := by
  have alike := rewritten.rules name
  rw [missing] at alike
  generalize right.rules.lookup name = found at alike
  cases alike with
  | none => rfl

theorem resolve {target : Expr} (known : left.definitions.resolve cell = .ok target) :
    ∃ other, right.definitions.resolve cell = .ok other ∧ Rewrites target other := by
  have alike := rewritten.definitions cell
  rw [known] at alike
  generalize right.definitions.resolve cell = found at alike
  cases alike with
  | ok rewrites => exact ⟨_, rfl, rewrites⟩

theorem resolve_missing {error : BuildError}
    (missing : left.definitions.resolve cell = .error error) :
    right.definitions.resolve cell = .error error := by
  have alike := rewritten.definitions cell
  rw [missing] at alike
  generalize right.definitions.resolve cell = found at alike
  cases alike with
  | error => rfl

theorem skippers : List.Forall₂ Rewrites left.skippers right.skippers :=
  Env.forall₂_skippers rewritten.whitespace rewritten.comment

theorem beyondLimit_eq (count : Nat) :
    Clause.beyondLimit right count = Clause.beyondLimit left count := by
  unfold Clause.beyondLimit
  rw [rewritten.repeatLimit]

end Env.Rewritten

/-- The task, except that what is left to be skipped may be rewritten. -/
inductive Task.Rewritten : Task → Task → Prop
  | same (task : Task) : Rewritten task task
  | skip {rest others : List Expr} {here : Position} {progress : Bool} :
      List.Forall₂ Rewrites rest others →
      Rewritten (.skip rest here progress) (.skip others here progress)

theorem Task.Rewritten.skip_inv {rest : List Expr} {here : Position} {progress : Bool} {task : Task}
    (alike : (Task.skip rest here progress).Rewritten task) :
    ∃ others, task = .skip others here progress ∧ List.Forall₂ Rewrites rest others := by
  cases alike with
  | same => exact ⟨rest, rfl, List.forall₂_same.mpr fun expr _ => .refl expr⟩
  | skip alike => exact ⟨_, rfl, alike⟩

/-- What a task comes to in one environment, it comes to in the other one. -/
theorem ComesTo.rewritten {left right : Env} (rewritten : left.Rewritten right) {task : Task}
    {items : List Span} {fate : Fate} (comes : ComesTo left task items fate) :
    ∀ {other : Task}, task.Rewritten other → ComesTo right other items fate := by
  induction comes with
  | terminal ends => rintro _ ⟨⟩; exact .terminal ends
  | seq _ ih => rintro _ ⟨⟩; exact .seq (ih (.same _))
  | choice _ ih => rintro _ ⟨⟩; exact .choice (ih (.same _))
  | opt _ same ih => rintro _ ⟨⟩; exact .opt (ih (.same _)) same
  | rep _ ih => rintro _ ⟨⟩; exact .rep (ih (.same _))
  | positive _ same ih => rintro _ ⟨⟩; exact .positive (ih (.same _)) same
  | negative _ same ih => rintro _ ⟨⟩; exact .negative (ih (.same _)) same
  | restorable _ same ih => rintro _ ⟨⟩; exact .restorable (ih (.same _)) same
  | push _ same ih => rintro _ ⟨⟩; exact .push (ih (.same _)) same
  | rule _ ih => rintro _ ⟨⟩; exact .rule (ih (.same _))
  | ref known _ ih =>
    rintro _ ⟨⟩
    obtain ⟨other, also, rewrites⟩ := rewritten.lookup known
    exact .ref also ((rewrites.equivalent right).onward (ih (.same _)))
  | refMissing missing => rintro _ ⟨⟩; exact .refMissing (rewritten.lookup_missing missing)
  | lazy known _ ih =>
    rintro _ ⟨⟩
    obtain ⟨other, also, rewrites⟩ := rewritten.resolve known
    exact .lazy also ((rewrites.equivalent right).onward (ih (.same _)))
  | lazyMissing missing => rintro _ ⟨⟩; exact .lazyMissing (rewritten.resolve_missing missing)
  | ignoredAtomic => rintro _ ⟨⟩; exact .ignoredAtomic
  | ignored _ ih => rintro _ ⟨⟩; exact .ignored (ih (.skip rewritten.skippers))
  | pairFirst _ stopped ih => rintro _ ⟨⟩; exact .pairFirst (ih (.same _)) stopped
  | pair _ _ first second => rintro _ ⟨⟩; exact .pair (first (.same _)) (second (.same _))
  | abstract => rintro _ ⟨⟩; exact .abstract
  | gapNone => rintro _ ⟨⟩; exact .gapNone
  | gap _ ih => rintro _ ⟨⟩; exact .gap (ih (.same _))
  | itemsEnd => rintro _ ⟨⟩; exact .itemsEnd
  | itemsGap _ stopped gap => rintro _ ⟨⟩; exact .itemsGap (gap (.same _)) stopped
  | itemsStop _ _ stopped gap part =>
    rintro _ ⟨⟩
    exact .itemsStop (gap (.same _)) (part (.same _)) stopped
  | itemsMore _ _ _ gap part others =>
    rintro _ ⟨⟩
    exact .itemsMore (gap (.same _)) (part (.same _)) (others (.same _))
  | alternativesEnd => rintro _ ⟨⟩; exact .alternativesEnd
  | alternativesFound _ found part => rintro _ ⟨⟩; exact .alternativesFound (part (.same _)) found
  | alternativesMore _ _ part others =>
    rintro _ ⟨⟩
    exact .alternativesMore (part (.same _)) (others (.same _))
  | loopFull full same => rintro _ ⟨⟩; exact .loopFull full same
  | loopGap room _ stopped gap => rintro _ ⟨⟩; exact .loopGap room (gap (.same _)) stopped
  | loopBroken room _ _ gap part =>
    rintro _ ⟨⟩
    exact .loopBroken room (gap (.same _)) (part (.same _))
  | loopEnd room _ _ same gap part =>
    rintro _ ⟨⟩
    exact .loopEnd room (gap (.same _)) (part (.same _)) same
  | loopLimit room _ _ beyond gap part =>
    rintro _ ⟨⟩
    exact .loopLimit room (gap (.same _)) (part (.same _))
      ((rewritten.beyondLimit_eq _).trans beyond)
  | loopMore room _ _ within _ gap part others =>
    rintro _ ⟨⟩
    exact .loopMore room (gap (.same _)) (part (.same _))
      ((rewritten.beyondLimit_eq _).trans within) (others (.same _))
  | skipEnd =>
    intro other alike
    obtain ⟨_, rfl, ⟨⟩⟩ := alike.skip_inv
    exact .skipEnd
  | skipAgain _ ih =>
    intro other alike
    obtain ⟨_, rfl, ⟨⟩⟩ := alike.skip_inv
    exact .skipAgain (ih (.skip rewritten.skippers))
  | skipBroken _ part =>
    intro other alike
    obtain ⟨_, rfl, rewrites | ⟨rewrites, others⟩⟩ := alike.skip_inv
    exact .skipBroken ((rewrites.equivalent right).onward (part (.same _)))
  | skipNone _ _ part ih =>
    intro other alike
    obtain ⟨_, rfl, rewrites | ⟨rewrites, others⟩⟩ := alike.skip_inv
    exact .skipNone ((rewrites.equivalent right).onward (part (.same _))) (ih (.skip others))
  | skipStay _ stays _ part ih =>
    intro other alike
    obtain ⟨_, rfl, rewrites | ⟨rewrites, others⟩⟩ := alike.skip_inv
    exact .skipStay ((rewrites.equivalent right).onward (part (.same _))) stays (ih (.skip others))
  | skipMore _ moves _ part ih =>
    intro other alike
    obtain ⟨_, rfl, rewrites | ⟨rewrites, others⟩⟩ := alike.skip_inv
    exact .skipMore ((rewrites.equivalent right).onward (part (.same _))) moves
      (ih (.skip (.cons rewrites others)))

/-! ### Runs -/

section Fates

variable {outcome : Outcome (Option Match)} {fate : Fate}

theorem Outcome.HasFate.ne_exhausted (has : outcome.HasFate fate) : outcome ≠ .exhausted := by
  rintro rfl
  rcases has with ⟨_, lost⟩ | none
  · cases lost
  · cases none

theorem Outcome.exists_fate (ended : outcome ≠ .exhausted) :
    ∃ fate, outcome.fate? = some fate := by
  rcases outcome with ⟨_ | result, after⟩ | ⟨cause, after⟩ | _
  · exact ⟨_, rfl⟩
  · exact ⟨_, rfl⟩
  · exact ⟨_, rfl⟩
  · exact absurd rfl ended

variable {env : Env} {expr : Expr} {here : Position} {atomic : Bool} {before : State}

/-- What the machine comes to is derived, unless a text is wanting. -/
theorem comesTo_of_run {fuel : Nat}
    (comes : (run env fuel expr here atomic before).fate? = some fate) (shown : fate.shown = true) :
    ComesTo env (.expr expr here atomic) before.stack.items fate := by
  obtain ⟨enough, same⟩ := Machine.eval_of_run (Outcome.HasFate.ne_exhausted (.inr comes))
  exact (Derived.eval env enough).expr (same ▸ comes) shown

/-- What is derived, the machine comes to, given enough fuel, unless a text is wanting. -/
theorem ComesTo.exists_run
    (comes : ComesTo env (.expr expr here atomic) before.stack.items fate) :
    ∃ fuel, (run env fuel expr here atomic before).HasFate fate := by
  obtain ⟨fuel, has⟩ := comes.exists_eval
  obtain ⟨moves, same⟩ := Machine.run_of_eval has.ne_exhausted
  exact ⟨moves, same ▸ has⟩

end Fates

section Ends

variable {env : Env} {expr : Expr} {here stop : Position} {atomic : Bool} {before : State}
  {items : List Span}

/-- What is derived to match does so, if no text is ever wanting. -/
theorem ComesTo.finishes
    (comes : ComesTo env (.expr expr here atomic) before.stack.items (.matched stop items))
    (shows : ∀ fuel, ¬(run env fuel expr here atomic before).Endless) :
    ∃ found after, Finishes env expr here atomic before (some found) after ∧ found.stop = stop := by
  obtain ⟨moves, ends⟩ := comes.exists_run
  have ends := ends.resolve_left (shows moves)
  cases ran : run env moves expr here atomic before with
  | done result after =>
    rw [ran] at ends
    cases result with
    | none => cases ends
    | some found =>
      cases ends
      exact ⟨found, after, ⟨moves, ran⟩, rfl⟩
  | fault cause after => rw [ran] at ends; cases ends
  | exhausted => rw [ran] at ends; cases ends

theorem ComesTo.finishes_none
    (comes : ComesTo env (.expr expr here atomic) before.stack.items (.failed items))
    (shows : ∀ fuel, ¬(run env fuel expr here atomic before).Endless) :
    ∃ after, Finishes env expr here atomic before none after := by
  obtain ⟨moves, ends⟩ := comes.exists_run
  have ends := ends.resolve_left (shows moves)
  cases ran : run env moves expr here atomic before with
  | done result after =>
    rw [ran] at ends
    cases result with
    | none => exact ⟨after, moves, ran⟩
    | some found => cases ends
  | fault cause after => rw [ran] at ends; cases ends
  | exhausted => rw [ran] at ends; cases ends

end Ends

section Runs

variable {left right : Env} {expr other : Expr}

/-- What the machine comes to on one side, it comes to on the other, unless a text is wanting on one
of them. -/
theorem Env.Rewritten.run_fate (rewritten : left.Rewritten right) (rewrites : Rewrites expr other)
    {here : Position} {atomic : Bool} {before also : State} {fuel : Nat}
    (same : before.stack.items = also.stack.items)
    (ended : run left fuel expr here atomic before ≠ .exhausted) :
    (run left fuel expr here atomic before).Endless ∨
      ∃ moves, run right moves other here atomic also ≠ .exhausted ∧
        ((run right moves other here atomic also).Endless ∨
          (run left fuel expr here atomic before).fate? =
            (run right moves other here atomic also).fate?) := by
  refine or_iff_not_imp_left.mpr fun shown => ?_
  obtain ⟨fate, comes⟩ := Outcome.exists_fate ended
  have derived := comesTo_of_run comes (Outcome.shown_of_fateBy shown comes)
  have onward := (rewrites.equivalent right).onward (derived.rewritten rewritten (.same _))
  obtain ⟨moves, reached⟩ := (same ▸ onward).exists_run
  exact ⟨moves, reached.ne_exhausted, reached.imp_right fun also => comes.trans also.symm⟩

/-- Rewriting keeps what matching comes to wherever texts end. Let two expressions differ by
rewriting only, and let their environments differ by rewriting the rules, the definitions and the
text to be ignored; the limit of repetitions is arbitrary, but the same. From any place, atomic or
not, and from any two states with the same items on the stack, the machine then comes to an end on
both sides or on neither, and on both sides there is a match up to the same place, or no match, or
the same fault, and the same items are left on the stack; or on one side it is broken off because an
expression that it was to show has no text. If all texts end, that never happens. -/
theorem rewriting_keeps_fates_where_texts_end (rewritten : left.Rewritten right)
    (rewrites : Rewrites expr other) (here : Position) (atomic : Bool) {before also : State}
    (same : before.stack.items = also.stack.items) :
    EndTogetherUnlessEndless (fun first second => first.fate? = second.fate?)
        (run left · expr here atomic before) (run right · other here atomic also) ∧
      (left.definitions.TextsEnd → right.definitions.TextsEnd →
        EndTogether (fun first second => first.fate? = second.fate?)
          (run left · expr here atomic before) (run right · other here atomic also)) := by
  have alike : EndTogetherUnlessEndless (fun first second => first.fate? = second.fate?)
      (run left · expr here atomic before) (run right · other here atomic also) := by
    refine ⟨fun fuel ended => ?_, fun fuel ended => ?_, fun fuel others ended finished => ?_⟩
    · refine (rewritten.run_fate rewrites same ended).imp_right fun also => ?_
      obtain ⟨moves, reached, _⟩ := also
      exact ⟨moves, reached⟩
    · refine (rewritten.symm.run_fate rewrites.symm same.symm ended).imp_right fun also => ?_
      obtain ⟨moves, reached, _⟩ := also
      exact ⟨moves, reached⟩
    · refine (rewritten.run_fate rewrites same ended).imp_right fun also => ?_
      obtain ⟨moves, reached, alike⟩ := also
      rwa [Machine.run_unique reached finished] at alike
  refine ⟨alike, fun texts others => alike.together ?_ ?_⟩
  · exact fun fuel => Action.ShowsAll.run texts fuel expr here atomic before
  · exact fun fuel => Action.ShowsAll.run others fuel other here atomic also

end Runs

/-- A letter and, after a comma, the same letter again. -/
def twins : Expr := .seq (.push (.charRange 'a' 'z')) [.seq (.literal ",") [.terminal .pop]]

/-- The same in one sequence. -/
def flatTwins : Expr := .seq (.push (.charRange 'a' 'z')) [.literal ",", .terminal .pop]

/-- The text of two twins, with a space that is ignored. -/
def twinsText : Env where
  input := ⟨0, #['a', ' ', ',', 'a']⟩
  rules := [("twins", twins)]
  whitespace := some (.opt (.literal " "))

/-- The same with its parts rewritten. -/
def flatTwinsText : Env where
  input := ⟨0, #['a', ' ', ',', 'a']⟩
  rules := [("twins", flatTwins)]
  whitespace := some (.choice (.restorable (.literal " ")) [.terminal .empty])

theorem twinsText_rewritten : twinsText.Rewritten flatTwinsText where
  rules name := by
    have flat : Rewrites twins flatTwins :=
      .flattenSeq (show _ = [.push (.charRange 'a' 'z')] ++ ([_] ++ []) from rfl) rfl
    simp only [twinsText, flatTwinsText, List.lookup_cons, List.lookup_nil]
    cases name == "twins" with
    | true => exact .some flat
    | false => exact .none
  definitions _ := .error _
  whitespace := .some (.optChoice _)
  comment := .none
  repeatLimit := rfl

/-- The start of the text. -/
def twinsStart : Position := ⟨twinsText.input, 0, Nat.zero_le _⟩

/-- Twins are seen ahead, and they are not missing in the rewritten text; the stack is as before. -/
theorem twins_seen_alike :
    (run twinsText 60 (.positive (.ref "twins")) twinsStart false {}).fate? =
        (run flatTwinsText 60 (.negative (.negative (.ref "twins"))) twinsStart false {}).fate? ∧
      (run twinsText 60 (.positive (.ref "twins")) twinsStart false {}).fate? =
        some (.matched twinsStart []) := by
  have keeps := rewriting_keeps_fates_where_texts_end twinsText_rewritten
    (.positiveNegative (.ref "twins")) twinsStart false
    (rfl : ({} : State).stack.items = ({} : State).stack.items)
  have together := keeps.2 Definitions.textsEnd_nil Definitions.textsEnd_nil
  exact ⟨together.ends 60 60 nofun nofun, rfl⟩

/-! ### Where texts do not end -/

theorem Env.Rewritten.refl (env : Env) : env.Rewritten env where
  rules name := by
    cases env.rules.lookup name with
    | none => exact .none
    | some target => exact .some (.refl target)
  definitions cell := by
    cases env.definitions.resolve cell with
    | error error => exact .error error
    | ok target => exact .ok (.refl target)
  whitespace := by
    cases env.whitespace with
    | none => exact .none
    | some skipper => exact .some (.refl skipper)
  comment := by
    cases env.comment with
    | none => exact .none
    | some skipper => exact .some (.refl skipper)
  repeatLimit := rfl

/-- Brackets that are balanced, and a text of two brackets. -/
def twoBrackets : Env where
  input := ⟨0, #['(', ')']⟩
  definitions := [("balanced",
    .ok (.opt (.seq (.literal "(") [.lazy ⟨"balanced", some 0⟩, .literal ")"])))]

/-- Balanced brackets are seen ahead. To look for them not to be missing is to be broken off, as the
inner one of the two lookaheads fails and its body has no text. -/
theorem negating_twice_ends_in_endless_text :
    let balanced : Expr := .lazy ⟨"balanced", some 0⟩
    let start := Position.start twoBrackets.input
    twoBrackets.Rewritten twoBrackets ∧
      Rewrites (.positive balanced) (.negative (.negative balanced)) ∧
      (run twoBrackets 40 (.positive balanced) start false {}).fate? = some (.matched start []) ∧
      (run twoBrackets 40 (.negative (.negative balanced)) start false {}).fate? =
        some (.broken .endlessText []) ∧
      ¬EndTogether (fun first second => first.fate? = second.fate?)
        (run twoBrackets · (.positive balanced) start false {})
        (run twoBrackets · (.negative (.negative balanced)) start false {}) := by
  intro balanced start
  refine ⟨.refl _, .positiveNegative _, rfl, rfl, fun together => ?_⟩
  cases together.ends 40 40 nofun nofun

end Peg
