import Mathlib.Data.List.Forall2
import Peg.Proofs.Scan.Intake
import Peg.Proofs.Tree.Entries
import Peg.Proofs.Tree.Nearest

/-!
# What matching builds from a text

What matching takes of a text is one thing, and the nodes that it builds are another. Where a text
stands in front of a rest, an expression yields nodes of some kind if matching it comes to its end
behind the text with such a node. The nodes of sequences, repetitions and optional parts only hold
together what their parts have built. So all that is said of them here is which matches of some
rules are the nearest in them: those of the parts, in their order.
-/
namespace Peg

/-- The way to a position can be cut where the text is cut. -/
theorem Position.Reads.cut {here stop : Position} {early late : List Char}
    (reads : here.Reads (early ++ late) stop) :
    ∃ middle, here.Reads early middle ∧ middle.Reads late stop ∧
      middle.rest = late ++ stop.rest := by
  have front : here.rest = early ++ (late ++ stop.rest) := by
    rw [reads.rest_eq, List.append_assoc]
  obtain ⟨middle, first, left⟩ := exists_reads front
  refine ⟨middle, first, ⟨reads.input_eq.trans first.input_eq.symm, ?_, left⟩, left⟩
  rw [reads.offset_eq, first.offset_eq, List.length_append, Nat.add_assoc]

namespace Action.Meets

variable {α β : Type} {total : Bool} {action : Action α}

/-- From a position to a later one there is always a span. -/
theorem span {here stop : Position} (ordered : here.Precedes stop) :
    Meets total (Action.span here stop) fun span => span.Covers here stop := by
  obtain ⟨span, made, covers⟩ := Span.spanTo_eq_ok ordered
  rw [Action.span, made]
  exact .pure covers

/-- What is answered is answered in some state, too. -/
theorem answered {holds : α → Prop} (meets : Meets total action holds) :
    Meets total action fun value =>
      holds value ∧ ∃ before after, action before = .done value after :=
  ⟨fun ended => ⟨meets.sound ended, _, _, ended⟩, meets.ends⟩

/-- What an answer is turned into tells of the answer. -/
theorem of_map {turn : α → β} {holds : β → Prop}
    (meets : Meets total (action >>= fun value => Pure.pure (turn value)) holds) :
    Meets total action fun value => holds (turn value) := by
  constructor
  · intro before after value ended
    exact meets.sound (Action.bind_of_done ended)
  · intro whole before
    obtain ⟨_, after, ended⟩ := meets.ends whole before
    obtain ⟨value, middle, began, _⟩ := Action.bind_eq_done ended
    exact ⟨value, middle, began⟩

end Action.Meets

namespace Scan

/-- The answer is a match up to the position, with a node that satisfies the condition. -/
def Answers (action : Action (Option Match)) (stop : Position) (good : Node → Prop) : Prop :=
  action.Meets true fun result => ∃ node, result = some ⟨stop, some node⟩ ∧ good node

/-- Wherever the text stands in front of the rest, something holds of the positions before and
behind it, given enough fuel. -/
def Wherever (env : Env) (text rest : List Char) (holds : Nat → Position → Position → Prop) :
    Prop :=
  Eventually fun fuel => ∀ here stop, here.input = env.input → here.Reads text stop →
    stop.rest = rest → holds fuel here stop

/-- Where the text stands in front of the rest, matching the expression comes to its end behind the
text, with a node that satisfies the condition. -/
def Yields (env : Env) (atomic : Bool) (expr : Expr) (text rest : List Char)
    (good : Node → Prop) : Prop :=
  Wherever env text rest fun fuel here stop => Answers (eval env fuel expr here atomic) stop good

section Yields

variable {env : Env} {atomic : Bool} {expr first body target : Expr} {others front back : List Expr}
  {text rest early late : List Char} {good better : Node → Prop} {tag : Nat} {name : String}

theorem Answers.mono {action : Action (Option Match)} {stop : Position}
    (answers : Answers action stop good) (weaken : ∀ node, good node → better node) :
    Answers action stop better := by
  refine Action.Meets.mono answers ?_
  rintro _ ⟨node, rfl, fine⟩
  exact ⟨node, rfl, weaken node fine⟩

/-- A node over the way from one position to another. -/
theorem Answers.span {here stop : Position} (ordered : here.Precedes stop) {node : Span → Node}
    (fine : ∀ span, good (node span)) :
    Answers (Action.span here stop >>= fun span => pure (some ⟨stop, some (node span)⟩)) stop
      good :=
  (Action.Meets.span ordered).bind fun span _ => .pure ⟨node span, rfl, fine span⟩

theorem Yields.mono (yields : Yields env atomic expr text rest good)
    (weaken : ∀ node, good node → better node) : Yields env atomic expr text rest better :=
  Eventually.mono yields fun _ answers here stop whole reads front =>
    (answers here stop whole reads front).mono weaken

/-- What a scan takes it takes wherever the text stands in front of the rest. -/
theorem Takes.wherever {scan : Scan} (takes : scan.Takes env (text ++ rest) (some text)) :
    Wherever env text rest fun fuel here stop => ∀ action, scan fuel here action →
      action.Meets true fun result => ∃ node, result = some ⟨stop, node⟩ := by
  refine Eventually.mono takes fun fuel stops here stop whole reads front action ways => ?_
  have begun : here.rest = text ++ rest := by rw [reads.rest_eq, front]
  refine (stops here action whole begun ways).mono fun result reached => ?_
  cases result with
  | none => cases reached
  | some found =>
    obtain ⟨also⟩ := reached
    cases also.unique reads
    exact ⟨found.node, rfl⟩

/-- Of what is taken, the node is as the expression says. -/
theorem Takes.yields (takes : (Scan.expr env atomic expr).Takes env (text ++ rest) (some text))
    (shaped : ∀ here stop node, here.Reads text stop → Tiled env expr atomic here node stop →
      ∃ inner, node = some inner ∧ good inner) : Yields env atomic expr text rest good := by
  refine Eventually.mono takes.wherever fun fuel meets here stop whole reads front => ?_
  refine (meets here stop whole reads front _ rfl).answered.mono ?_
  rintro _ ⟨⟨node, rfl⟩, before, after, ended⟩
  obtain ⟨inner, rfl, fine⟩ := shaped here stop node reads (Builds.of_eval ended _ rfl)
  exact ⟨inner, rfl, fine⟩

/-- Of a rule that is not silent, the node has its name and covers the text. -/
theorem Takes.yieldsRule {kind : RuleKind}
    (takes : (Scan.expr env atomic (.ref name)).Takes env (text ++ rest) (some text))
    (defined : env.rules.lookup name = some (.rule tag name kind body)) (loud : kind ≠ .silent) :
    Yields env atomic (.ref name) text rest
      fun node => (∃ span child, node = .rule name span child) ∧
        node.text = String.ofList text := by
  refine takes.yields fun here stop node reads tiled => ?_
  cases tiled with
  | ref found inner =>
    cases defined.symm.trans found
    cases inner with
    | silent => exact absurd rfl loud
    | rule _ _ covers =>
      refine ⟨_, rfl, ⟨_, _, rfl⟩, ?_⟩
      rw [← reads.segment_eq]
      exact covers.text_eq

/-- What is missed is missed wherever the input is. -/
theorem Takes.misses {input : List Char}
    (takes : (Scan.expr env atomic expr).Takes env input none) :
    Wherever env [] input fun fuel here _ =>
      (eval env fuel expr here atomic).Meets true fun result => result = none := by
  refine Eventually.mono takes fun fuel stops here stop whole reads front => ?_
  have begun : here.rest = input := by rw [reads.rest_eq, front, List.nil_append]
  refine (stops here _ whole begun rfl).mono fun result reached => ?_
  cases result with
  | none => rfl
  | some found => cases reached

/-- Where ignored text is taken, it is skipped up to its end. -/
theorem Takes.skips (takes : (gap env atomic).Takes env (text ++ rest) (some text)) :
    Wherever env text rest fun fuel here stop =>
      (Eval.gapUnless (eval env fuel) atomic here).Meets true fun there => there = stop := by
  refine Eventually.mono takes.wherever fun fuel meets here stop whole reads front => ?_
  refine (meets here stop whole reads front _ rfl).of_map.mono ?_
  rintro there ⟨node, same⟩
  cases same
  rfl

theorem Yields.ref (defined : env.rules.lookup name = some target)
    (yields : Yields env atomic target text rest good) :
    Yields env atomic (.ref name) text rest good := by
  refine Eventually.succ yields fun fuel answers here stop whole reads front => ?_
  simp only [eval, Action.lookupRule, defined, pure_bind]
  exact answers here stop whole reads front

theorem Yields.silent (yields : Yields env atomic body text rest good) :
    Yields env atomic (.rule tag name .silent body) text rest good := by
  refine Eventually.succ yields fun fuel answers here stop whole reads front => ?_
  simp only [eval]
  refine (Action.Meets.emit env _).bind fun _ _ => ?_
  refine ((answers here stop whole reads front).withinAny _).bind ?_
  rintro _ ⟨node, rfl, fine⟩
  exact (Action.Meets.emit env _).bind fun _ _ => .pure ⟨node, rfl, fine⟩

theorem Yields.rule (yields : Yields env atomic body text rest good) :
    Yields env atomic (.rule tag name .normal body) text rest
      fun node => ∃ span inner, node = .rule name span (some inner) ∧ good inner := by
  refine Eventually.succ yields fun fuel answers here stop whole reads front => ?_
  simp only [eval]
  refine (Action.Meets.emit env _).bind fun _ _ => ?_
  refine ((answers here stop whole reads front).withinAny _).bind ?_
  rintro _ ⟨node, rfl, fine⟩
  refine (Action.Meets.emit env _).bind fun _ _ => ?_
  exact Answers.span reads.precedes fun span => ⟨span, node, rfl, fine⟩

/-- An alternative of a choice, where those in front of it do not match. -/
theorem alternatives_yield (back : List Expr)
    (missed : ∀ other ∈ front, (Scan.expr env atomic other).Takes env (text ++ rest) none)
    (yields : Yields env atomic expr text rest good) :
    Wherever env text rest fun fuel here stop => ∀ index,
      Answers (Eval.alternatives (eval env fuel) atomic here index (front ++ expr :: back)) stop
        fun node => ∃ span index inner, node = .choice span index (some inner) ∧ good inner := by
  induction front with
  | nil =>
    refine Eventually.mono yields fun fuel answers here stop whole reads front index => ?_
    refine (answers here stop whole reads front).bind ?_
    rintro _ ⟨node, rfl, fine⟩
    exact Answers.span reads.precedes fun span => ⟨span, index, node, rfl, fine⟩
  | cons other front ih =>
    obtain ⟨first, missed⟩ := List.forall_mem_cons.mp missed
    refine (first.misses.and (ih missed)).mono fun fuel both here stop whole reads front index => ?_
    have begun : here.rest = text ++ rest := by rw [reads.rest_eq, front]
    refine (both.1 here here whole (.refl here) begun).bind ?_
    rintro _ rfl
    exact both.2 here stop whole reads front (index + 1)

theorem Yields.choice (split : front ++ expr :: back = first :: others)
    (missed : ∀ other ∈ front, (Scan.expr env atomic other).Takes env (text ++ rest) none)
    (yields : Yields env atomic expr text rest good) :
    Yields env atomic (.choice first others) text rest
      fun node => ∃ span index inner, node = .choice span index (some inner) ∧ good inner := by
  have found := alternatives_yield back missed yields
  rw [split] at found
  exact Eventually.succ found fun fuel answers here stop whole reads front =>
    answers here stop whole reads front 0

end Yields

/-! ### Collections -/

/-- The nearest matches of the named rules in the trees satisfy the conditions, each its own. -/
def Bears (names : List String) (goods : List (Node → Prop)) (nodes : List Node) : Prop :=
  List.Forall₂ (fun good node => good node) goods (nodes.flatMap (Node.nearest names))

namespace Bears

variable {names : List String} {goods more : List (Node → Prop)} {nodes others : List Node}
  {node : Node}

theorem nil (names : List String) : Bears names [] [] := List.Forall₂.nil

theorem append (bears : Bears names goods nodes) (also : Bears names more others) :
    Bears names (goods ++ more) (nodes ++ others) := by
  unfold Bears
  rw [List.flatMap_append]
  exact List.rel_append bears also

/-- The match of one of the rules. -/
theorem root {good : Node → Prop} (isRule : node.isRule names = true) (fine : good node) :
    Bears names [good] [node] := by
  unfold Bears
  rw [List.flatMap_singleton, Node.nearest_of_isRule isRule]
  exact .cons fine .nil

/-- A node that is the match of no rule. -/
theorem above (plain : node.isRule names = false) (bears : Bears names goods node.childNodes) :
    Bears names goods [node] := by
  unfold Bears at bears ⊢
  rwa [List.flatMap_singleton, Node.nearest_of_not_isRule (ne_true_of_eq_false plain)]

end Bears

/-- What matching the expression yields bears matches of the named rules that satisfy the
conditions. -/
def Collects (names : List String) (env : Env) (atomic : Bool) (expr : Expr)
    (text rest : List Char) (goods : List (Node → Prop)) : Prop :=
  Yields env atomic expr text rest fun node => Bears names goods [node]

/-- Matching the items of a sequence that are left adds nodes that bear such matches. -/
def ItemsCollect (names : List String) (env : Env) (atomic : Bool) (exprs : List Expr)
    (text rest : List Char) (goods : List (Node → Prop)) : Prop :=
  Wherever env text rest fun fuel here stop => ∀ start found, start.Precedes here →
    found.isEmpty = false →
      Answers (Eval.items (eval env fuel) atomic start exprs here found) stop
        fun node => ∃ span nodes, node = .seq span (found.toList ++ nodes.map some) ∧
          Bears names goods nodes

/-- With so many rounds more, matching the rest of a repetition after so many matches adds nodes
that bear such matches. -/
def TurnsCollect (names : List String) (env : Env) (atomic : Bool) (body : Expr) (min : Nat)
    (size count : Nat) (text rest : List Char) (goods : List (Node → Prop)) : Prop :=
  Wherever env text rest fun fuel here stop => ∀ start found rounds, start.Precedes here →
    found.size = count → size ≤ rounds →
      Answers (round env (eval env fuel) body min atomic start rounds found here) stop
        fun node => ∃ span nodes, node = .rep span (found.toList ++ nodes.map some) ∧
          Bears names goods nodes

section Collections

variable {names : List String} {env : Env} {atomic : Bool} {expr body : Expr}
  {exprs : List Expr} {text between rest onward : List Char} {goods others : List (Node → Prop)}
  {min size count : Nat}

theorem childNodes_of_items (nodes : List Node) : (nodes.map some).filterMap id = nodes := by
  induction nodes with
  | nil => rfl
  | cons node nodes ih => exact congrArg (node :: ·) ih

/-- What matches nothing else than a leaf. -/
theorem Collects.leaf {leaf : Terminal}
    (takes : (Scan.expr env atomic (.terminal leaf)).Takes env (text ++ rest) (some text)) :
    Collects names env atomic (.terminal leaf) text rest [] := by
  refine takes.yields fun here stop node reads tiled => ?_
  cases tiled with
  | terminal => exact ⟨_, rfl, .above rfl (.nil names)⟩

theorem ItemsCollect.nil : ItemsCollect names env atomic [] [] rest [] := by
  refine Eventually.mono (Eventually.above 0) fun fuel _ here stop whole reads front => ?_
  intro start found ordered begun
  cases reads.unique (.refl here)
  refine Answers.span ordered fun span => ⟨span, [], ?_, .nil names⟩
  rw [List.map_nil, List.append_nil]

theorem ItemsCollect.cons (skipped : (gap env atomic).Takes env
      (between ++ (text ++ (onward ++ rest))) (some between))
    (first : Collects names env atomic expr text (onward ++ rest) goods)
    (later : ItemsCollect names env atomic exprs onward rest others) :
    ItemsCollect names env atomic (expr :: exprs) (between ++ (text ++ onward)) rest
      (goods ++ others) := by
  refine (skipped.skips.and (Eventually.and first later)).mono fun fuel all => ?_
  obtain ⟨skips, answers, goesOn⟩ := all
  intro here stop whole reads front start found ordered begun
  -- The way leads through the end of the gap and through the end of the item.
  obtain ⟨there, gap, reads, left⟩ := reads.cut
  obtain ⟨middle, item, reads, remains⟩ := reads.cut
  rw [front] at left remains
  rw [List.append_assoc] at left
  have inThere : there.input = env.input := gap.input_eq.trans whole
  have inMiddle : middle.input = env.input := item.input_eq.trans inThere
  have passed := (ordered.trans gap.precedes).trans item.precedes
  rw [Eval.items, begun, Bool.false_or]
  refine (skips here there whole gap left).bind fun _ same => ?_
  cases same
  refine (answers there middle inThere item remains).bind ?_
  rintro _ ⟨node, rfl, bears⟩
  have pushed : (found.push (some node)).isEmpty = false := by simp
  refine (goesOn middle stop inMiddle reads front start _ passed pushed).mono ?_
  rintro _ ⟨span, nodes, rfl, also⟩
  exact ⟨span, node :: nodes, by simp, bears.append also⟩

theorem Collects.seq (first : Collects names env atomic expr text (onward ++ rest) goods)
    (later : ItemsCollect names env atomic exprs onward rest others) :
    Collects names env atomic (.seq expr exprs) (text ++ onward) rest (goods ++ others) := by
  refine Eventually.succ (Eventually.and first later) fun fuel both => ?_
  obtain ⟨answers, goesOn⟩ := both
  intro here stop whole reads front
  obtain ⟨middle, item, reads, remains⟩ := reads.cut
  rw [front] at remains
  have inMiddle : middle.input = env.input := item.input_eq.trans whole
  refine (answers here middle whole item remains).bind ?_
  rintro _ ⟨node, rfl, bears⟩
  refine (goesOn middle stop inMiddle reads front here #[some node] item.precedes rfl).mono ?_
  rintro _ ⟨span, nodes, rfl, also⟩
  refine .above rfl ?_
  -- The first item was put into the node before the others.
  have children : Node.childNodes (.seq span (#[some node].toList ++ nodes.map some)) =
      [node] ++ nodes := childNodes_of_items (node :: nodes)
  rw [children]
  exact bears.append also

/-- A single item after the first one. -/
theorem ItemsCollect.last (skipped : (gap env atomic).Takes env
      (between ++ (text ++ rest)) (some between))
    (first : Collects names env atomic expr text rest goods) :
    ItemsCollect names env atomic [expr] (between ++ text) rest goods := by
  have items : ItemsCollect names env atomic [expr] (between ++ (text ++ [])) rest (goods ++ []) :=
    .cons skipped first .nil
  rwa [List.append_nil, List.append_nil] at items

/-- An optional part that is there. -/
theorem Collects.opt (inner : Collects names env atomic body text rest goods) :
    Collects names env atomic (.opt body) text rest goods := by
  refine Eventually.succ inner fun fuel answers here stop whole reads front => ?_
  dsimp only
  rw [eval_opt]
  refine (Stops.transaction _ (Balanced.eval env fuel body here atomic)
    (answers here stop whole reads front)).bind ?_
  rintro _ ⟨node, rfl, bears⟩
  exact Answers.span reads.precedes fun span => .above rfl bears

/-- An optional part that is not there. -/
theorem Collects.optMissed (missed : (Scan.expr env atomic body).Takes env rest none) :
    Collects names env atomic (.opt body) [] rest [] := by
  refine Eventually.succ missed.misses fun fuel misses here stop whole reads front => ?_
  -- Nothing is read, so that the end is where it starts.
  cases reads.unique (.refl here)
  rw [eval_opt]
  refine (Stops.transaction _ (Balanced.eval env fuel body here atomic)
    (misses here here whole reads front)).bind ?_
  rintro _ rfl
  exact Answers.span reads.precedes fun span => .above rfl (.nil names)

/-- No match comes after the others, and these are enough. -/
theorem TurnsCollect.last (missed : (Scan.expr env atomic body).Takes env rest none)
    (enough : min ≤ count) : TurnsCollect names env atomic body min size count [] rest [] := by
  refine Eventually.mono missed.misses fun fuel misses here stop whole reads front => ?_
  intro start found rounds ordered counted _
  cases reads.unique (.refl here)
  refine (misses here here whole reads front).bind ?_
  rintro _ rfl
  have full : ¬found.size < min := by omega
  simp only [Clause.rep, if_neg full]
  refine Answers.span ordered fun span => ⟨span, [], ?_, .nil names⟩
  rw [List.map_nil, List.append_nil]

/-- One match more, within the limit, and what is ignored after it. -/
theorem TurnsCollect.more
    (first : Collects names env atomic body text (between ++ (onward ++ rest)) goods)
    (within : Intake.Allows env.repeatLimit (count + 1))
    (skipped : (gap env atomic).Takes env (between ++ (onward ++ rest)) (some between))
    (later : TurnsCollect names env atomic body min size (count + 1) onward rest others) :
    TurnsCollect names env atomic body min (size + 1) count (text ++ (between ++ onward)) rest
      (goods ++ others) := by
  refine (skipped.skips.and (Eventually.and first later)).mono fun fuel all => ?_
  obtain ⟨skips, answers, goesOn⟩ := all
  intro here stop whole reads front start found rounds ordered counted enough
  obtain ⟨middle, item, reads, remains⟩ := reads.cut
  obtain ⟨there, gap, reads, left⟩ := reads.cut
  rw [front] at left remains
  rw [List.append_assoc] at remains
  have inMiddle : middle.input = env.input := item.input_eq.trans whole
  have inThere : there.input = env.input := gap.input_eq.trans inMiddle
  have passed := (ordered.trans item.precedes).trans gap.precedes
  refine (answers here middle whole item remains).bind ?_
  rintro _ ⟨node, rfl, bears⟩
  have pushed : (found.push (some node)).size = count + 1 := by rw [Array.size_push, counted]
  have allowed : Clause.beyondLimit env (count + 1) = none :=
    (Recognizes.beyondLimit_eq_none env (count + 1)).mpr within
  have begun : (found.push (some node)).isEmpty = false := by simp
  -- There is a round left, which begins with ignored text.
  obtain ⟨rounds, rfl⟩ := Nat.exists_eq_add_of_le' (Nat.le_trans (Nat.succ_pos size) enough)
  dsimp only
  rw [pushed, allowed]
  dsimp only
  rw [repetition_eq, begun, Bool.false_or]
  refine (skips middle there inMiddle gap left).bind fun _ same => ?_
  cases same
  have left : size ≤ rounds := by omega
  refine (goesOn there stop inThere reads front start _ rounds passed pushed left).mono ?_
  rintro _ ⟨span, nodes, rfl, also⟩
  exact ⟨span, node :: nodes, by simp, bears.append also⟩

theorem Collects.rep (turns : TurnsCollect names env atomic body min size 0 text rest goods) :
    Collects names env atomic (.rep body min none) text rest goods := by
  refine Eventually.succ (Eventually.and turns (Eventually.above size)) fun fuel both => ?_
  obtain ⟨answers, enough⟩ := both
  intro here stop whole reads front
  obtain ⟨rounds, rfl⟩ := Nat.exists_eq_add_of_le' (Nat.lt_of_le_of_lt (Nat.zero_le size) enough)
  -- The first round skips nothing.
  have begun : eval env (rounds + 1 + 1) (.rep body min none) here atomic =
      round env (eval env (rounds + 1)) body min atomic here rounds #[] here :=
    repetition_eq _ here here rounds #[]
  rw [begun]
  have left : size ≤ rounds := by omega
  refine (answers here stop whole reads front here #[] rounds (.refl here) rfl left).mono ?_
  rintro _ ⟨span, nodes, rfl, bears⟩
  refine .above rfl ?_
  have children : Node.childNodes (.rep span (#[].toList ++ nodes.map some)) = nodes :=
    childNodes_of_items nodes
  rwa [children]

end Collections

end Scan

end Peg
