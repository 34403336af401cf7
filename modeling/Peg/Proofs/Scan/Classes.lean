import Peg.Proofs.Scan.Intake

/-!
# Characters of a class

Expressions that take one character of a class or nothing, and what is made of them: a class in
place of several, the characters that are in no class, rows of characters of a class, and ignored
text, which is the longest such row at the front of the input.
-/
namespace Peg

namespace Scan

/-- The first character of the input, if the class accepts it. -/
def leading (accept : Char → Bool) : List Char → Option (List Char)
  | [] => none
  | c :: _ => if accept c then some [c] else none

/-- On all inputs, the scan takes the first character if the class accepts it. -/
def TakesOne (env : Env) (scan : Scan) (accept : Char → Bool) : Prop :=
  ∀ input, scan.Takes env input (leading accept input)

section Terminals

variable {env : Env} {atomic : Bool} {input : List Char} {outcome : Option (List Char)}

/-- Standard terminals take what their patterns derive. -/
theorem takes_of_derives {leaf : Terminal} (standard : leaf.Standard) {steps : Nat}
    (derives : Derives env.grammar leaf.pattern input steps outcome) :
    (expr env atomic (.terminal leaf)).Takes env input outcome := by
  refine Eventually.succ (Eventually.above 0) fun fuel _ here action _ front ways => ?_
  rw [ways]
  refine (Stops.attempt standard env.grammar here).mono fun result parses => ?_
  obtain ⟨others, other, also, reached⟩ := parses
  rw [front] at also
  rwa [(derives.unique also).2]

theorem derives_leading (grammar : PatternGrammar) (accept : Char → Bool) (input : List Char) :
    Derives grammar (.terminal accept) input 1 (leading accept input) := by
  cases input with
  | nil => exact .terminalEnd
  | cons c rest =>
    by_cases accepted : accept c = true
    · rw [leading, if_pos accepted]
      exact .terminal accepted
    · rw [leading, if_neg accepted]
      exact .terminalOther (Bool.eq_false_iff.mpr accepted)

theorem charRange_takesOne (low high : Char) :
    (expr env atomic (.charRange low high)).TakesOne env fun c => low ≤ c && c ≤ high :=
  fun input => takes_of_derives (.charRange low high) (derives_leading _ _ input)

theorem any_takesOne : (expr env atomic (.terminal .any)).TakesOne env fun _ => true :=
  fun input => takes_of_derives .any (derives_leading _ _ input)

theorem literal_takes (text : String) (rest : List Char) :
    (expr env atomic (.literal text)).Takes env (text.toList ++ rest) (some text.toList) := by
  obtain ⟨steps, derives⟩ := Derives.chars_found env.grammar text.toList rest
  exact takes_of_derives (.literal text) derives

theorem literal_misses {text : String} (absent : ∀ rest, input ≠ text.toList ++ rest) :
    (expr env atomic (.literal text)).Takes env input none := by
  obtain ⟨steps, derives⟩ := Derives.chars_missing env.grammar absent
  exact takes_of_derives (.literal text) derives

theorem literal_recognizes (text : String) (size : Nat) :
    Recognizes env size (expr env atomic (.literal text)) (.always (· = text.toList)) := by
  intro input _
  by_cases present : ∃ rest, input = text.toList ++ rest
  · obtain ⟨rest, rfl⟩ := present
    refine ⟨_, literal_takes text rest, ?_, ?_⟩
    · rintro _ ⟨⟩
      exact ⟨rfl, rest, rfl⟩
    · rintro _ tail ⟨rfl, _⟩ _
      rfl
  · refine ⟨none, literal_misses fun rest front => present ⟨rest, front⟩, nofun, ?_⟩
    rintro _ rest ⟨rfl, _⟩ front
    exact absurd ⟨rest, front⟩ present

theorem literal_takesOne {text : String} {c : Char} (single : text.toList = [c]) :
    (expr env atomic (.literal text)).TakesOne env (· == c) := by
  intro input
  cases input with
  | nil => exact literal_misses fun rest => by simp [single]
  | cons d rest =>
    by_cases same : d = c
    · subst same
      have found : (expr env atomic (.literal text)).Takes env (text.toList ++ rest) _ :=
        literal_takes text rest
      simpa [leading, single] using found
    · have missed : (expr env atomic (.literal text)).Takes env (d :: rest) none :=
        literal_misses fun tail => by simp [single, same]
      simpa [leading, same] using missed

/-- Whether a text stands at the front of the input but for the case of letters. -/
def Resembles (text input : List Char) : Prop :=
  text.length ≤ input.length ∧ Text.lower (input.take text.length) = Text.lower text

theorem matchIgnoringCase_eq (here : Position) (text : String) :
    (Resembles text.toList here.rest → ∃ stop actual,
      here.matchIgnoringCase text = some (stop, actual) ∧
        here.Reads (here.rest.take text.toList.length) stop) ∧
      (¬Resembles text.toList here.rest → here.matchIgnoringCase text = none) := by
  have actual : (here.input.chars.extract here.offset
      (here.offset + text.toList.length)).toList = here.rest.take text.toList.length := by
    rw [Array.toList_extract, List.extract_eq_take_drop, Nat.add_sub_cancel_left]
    rfl
  have inside : here.offset + text.toList.length ≤ here.input.size ↔
      text.toList.length ≤ here.rest.length := by
    have bound := here.offset_le
    rw [Position.rest_length]
    omega
  unfold Resembles Position.matchIgnoringCase
  dsimp only
  rw [actual]
  constructor
  · rintro ⟨enough, same⟩
    rw [dif_pos (inside.mpr enough), if_pos same]
    have ordered : here.Precedes
        ⟨here.input, here.offset + text.toList.length, inside.mpr enough⟩ :=
      ⟨rfl, Nat.le_add_right _ _⟩
    have reads := ordered.reads
    simp only [Position.segment, Nat.add_sub_cancel_left] at reads
    exact ⟨_, _, rfl, reads⟩
  · intro differs
    split
    next room => rw [if_neg fun same => differs ⟨inside.mp room, same⟩]
    next => rfl

/-- The letter of an insensitive text of one letter, in whichever case. -/
theorem insensitive_takesOne {text : String} {c : Char} (single : text.toList = [c]) :
    (expr env atomic (.terminal (.insensitive text))).TakesOne env
      fun d => Text.lower [d] = Text.lower [c] := by
  intro input
  refine Eventually.succ (Eventually.above 0) fun fuel _ here action _ front ways => ?_
  rw [ways]
  simp only [eval, Terminal.attempt]
  obtain ⟨found, missed⟩ := matchIgnoringCase_eq here text
  rw [front, single] at found missed
  by_cases alike : Resembles [c] input
  · obtain ⟨stop, actual, matched, reads⟩ := found alike
    obtain ⟨enough, same⟩ := alike
    rw [matched]
    refine Stops.answer reads.precedes _ ?_
    cases input with
    | nil => simp at enough
    | cons d rest =>
      have accepted : Text.lower [d] = Text.lower [c] := by simpa using same
      simpa [leading, accepted] using Position.Reaches.success reads
  · rw [missed alike]
    refine Stops.missed _ ?_
    cases input with
    | nil => exact .failure
    | cons d rest =>
      have refused : Text.lower [d] ≠ Text.lower [c] := by simpa [Resembles] using alike
      simpa [leading, refused] using Position.Reaches.failure

end Terminals

section Classes

variable {env : Env} {atomic : Bool} {scan first ended inner : Scan} {accept other : Char → Bool}

theorem TakesOne.congr (takes : scan.TakesOne env accept) (same : ∀ c, accept c = other c) :
    scan.TakesOne env other := by
  rwa [← funext same]

theorem TakesOne.recognizes (takes : scan.TakesOne env accept) (size : Nat) :
    Recognizes env size scan (.always fun text => ∃ c, accept c = true ∧ [c] = text) := by
  intro input _
  refine ⟨_, takes input, ?_, ?_⟩
  · intro text taken
    cases input with
    | nil => cases taken
    | cons c rest =>
      simp only [leading] at taken
      split at taken
      next accepted =>
        cases taken
        exact ⟨⟨c, accepted, rfl⟩, rest, rfl⟩
      next => cases taken
  · rintro text rest ⟨⟨c, accepted, rfl⟩, _⟩ rfl
    exact if_pos accepted

theorem TakesOne.orElse (early : first.TakesOne env accept) (late : ended.TakesOne env other) :
    (branch first ended standing).TakesOne env fun c => accept c || other c := by
  intro input
  have missed : leading accept input = none →
      (branch first ended standing).Takes env input (leading other input) := by
    intro none
    have nothing := early input
    rw [none] at nothing
    exact nothing.branch_missed (late input)
  cases input with
  | nil => exact missed rfl
  | cons c rest =>
    by_cases accepted : accept c = true
    · have found := early (c :: rest)
      rw [leading, if_pos accepted] at found
      have taken : (branch first ended standing).Takes env ([c] ++ rest) (some ([c] ++ [])) :=
        Takes.branch_found found standing_takes
      simpa [leading, accepted] using taken
    · simpa [leading, accepted] using missed (if_neg accepted)

theorem TakesOne.choice {expr : Expr} {rest : List Expr}
    (early : (Scan.expr env atomic expr).TakesOne env accept)
    (late : (alternatives env atomic rest).TakesOne env other) :
    (Scan.expr env atomic (.choice expr rest)).TakesOne env fun c => accept c || other c :=
  fun input => (early.orElse late input).unfold choice_unfolds

theorem TakesOne.alternatives_cons {expr : Expr} {rest : List Expr}
    (early : (Scan.expr env atomic expr).TakesOne env accept)
    (late : (alternatives env atomic rest).TakesOne env other) :
    (alternatives env atomic (expr :: rest)).TakesOne env fun c => accept c || other c :=
  fun input => (early.orElse late input).refine alternatives_cons_refines

theorem TakesOne.alternatives_nil :
    (alternatives env atomic []).TakesOne env fun _ => false := by
  intro input
  have nothing : leading (fun _ => false) input = none := by cases input <;> rfl
  rw [nothing]
  exact failing_takes.refine alternatives_nil_refines

theorem mark_recognizes (mark : Char) (size : Nat) :
    Recognizes env size (expr env atomic (.literal mark.toString)) (.always (· = [mark])) :=
  (literal_recognizes mark.toString size).always_congr fun text => by simp

theorem literal_char_takesOne (mark : Char) :
    (expr env atomic (.literal mark.toString)).TakesOne env (· == mark) :=
  literal_takesOne (by simp)

theorem alternatives_literals (marks : List Char) :
    (alternatives env atomic (marks.map fun mark => .literal mark.toString)).TakesOne env
      fun c => decide (c ∈ marks) := by
  induction marks with
  | nil => exact TakesOne.alternatives_nil.congr fun c => by simp
  | cons mark marks ih =>
    refine ((literal_char_takesOne mark).alternatives_cons ih).congr fun c => ?_
    simp [Bool.beq_eq_decide_eq]

/-- One of some marks. -/
theorem choice_literals (mark : Char) (marks : List Char) :
    (expr env atomic (.choice (.literal mark.toString)
      (marks.map fun mark => .literal mark.toString))).TakesOne env
        fun c => decide (c ∈ mark :: marks) := by
  refine ((literal_char_takesOne mark).choice (alternatives_literals marks)).congr fun c => ?_
  simp [Bool.beq_eq_decide_eq]

/-- Where no character of a class comes next, a negative lookahead for one takes nothing. -/
theorem TakesOne.absent {body : Expr} (plain : body.shownCells = [])
    (inner : (expr env true body).TakesOne env accept) {input : List Char}
    (refused : leading accept input = none) :
    (expr env true (.negative body)).Takes env input (some []) := by
  have looked := (inner input).enclosed.settled
  rw [refused] at looked
  exact (looked.branch_missed standing_takes).unfold (negative_unfolds plain)

theorem TakesOne.present {body : Expr} (plain : body.shownCells = [])
    (inner : (expr env true body).TakesOne env accept) {c : Char} (accepted : accept c = true)
    (rest : List Char) :
    (expr env true (.negative body)).Takes env ([c] ++ rest) none := by
  have looked := (inner (c :: rest)).enclosed.settled
  rw [leading, if_pos accepted] at looked
  exact (looked.branch_found failing_takes).unfold (negative_unfolds plain)

/-- A character that is in no class. -/
theorem TakesOne.except {body : Expr} (plain : body.shownCells = [])
    (inner : (expr env true body).TakesOne env accept) :
    (expr env true (.seq (.negative body) [.terminal .any])).TakesOne env fun c => !accept c := by
  intro input
  cases input with
  | nil =>
    have ahead : (expr env true (.negative body)).Takes env ([] ++ []) (some []) :=
      inner.absent plain rfl
    have ended : (items env true [.terminal .any]).Takes env [] none :=
      ((any_takesOne []).branch_missed failing_takes).refine items_atomic_refines
    exact (ahead.branch_found ended).unfold seq_unfolds
  | cons c rest =>
    by_cases accepted : accept c = true
    · have ahead := inner.present plain accepted rest
      simpa [leading, accepted] using (ahead.branch_missed failing_takes).unfold seq_unfolds
    · have ahead : (expr env true (.negative body)).Takes env ([] ++ c :: rest) (some []) :=
        inner.absent plain (if_neg accepted)
      have one : (expr env true (.terminal .any)).Takes env ([c] ++ rest) (some [c]) :=
        any_takesOne (c :: rest)
      have last : (items env true []).Takes env rest (some []) :=
        standing_takes.refine items_nil_refines
      have found := (one.branch_found last).refine items_atomic_refines
      simpa [leading, accepted] using (ahead.branch_found found).unfold seq_unfolds

/-- Whether the rest does not begin with a character of the class. -/
def Spares (accept : Char → Bool) (rest : List Char) : Prop :=
  ∀ c tail, rest = c :: tail → accept c = false

theorem Spares.nil (accept : Char → Bool) : Spares accept [] := nofun

theorem Spares.cons {c : Char} (refused : accept c = false) (rest : List Char) :
    Spares accept (c :: rest) := by
  rintro _ _ ⟨⟩
  exact refused

theorem Spares.mono {rest : List Char} (spares : Spares accept rest)
    (fewer : ∀ c, other c = true → accept c = true) : Spares other rest := by
  intro c tail front
  have refused := spares c tail front
  rw [Bool.eq_false_iff] at refused ⊢
  exact mt (fewer c) refused

/-- As many characters of a class as there are, in an atomic repetition. -/
theorem TakesOne.rep {body : Expr} (inner : (expr env true body).TakesOne env accept)
    (size min : Nat) : Recognizes env size (expr env true (.rep body min none))
      (.of (fun text => (∀ c ∈ text, accept c = true) ∧ min ≤ text.length ∧
        Intake.Allows env.repeatLimit text.length) (Spares accept)) := by
  have nonempty : ∀ text, (∃ c, accept c = true ∧ [c] = text) → text ≠ [] := by
    rintro _ ⟨c, _, rfl⟩
    simp
  refine (Recognizes.rep nonempty (inner.recognizes size) .gap_atomic).weaken ?_ ?_
  · rintro text ⟨items, each, enough, within, rfl⟩
    -- Each match is one character, and the row of them is the text.
    have single : ∀ item ∈ items, ∃ c, accept c = true ∧ [c] = item := by
      intro item among
      obtain ⟨_, _, ⟨c, accepted, rfl⟩, rfl, rfl⟩ := each item among
      exact ⟨c, accepted, rfl⟩
    obtain ⟨chars, accepted, rfl⟩ := Intake.exists_map single
    have whole : (chars.map fun c => [c]).flatten = chars := by simp [← List.flatMap_def]
    rw [List.length_map, Nat.zero_add] at enough within
    rw [whole]
    exact ⟨accepted, enough, within⟩
  · rintro text rest ⟨⟨accepted, enough, within⟩, spares⟩
    refine ⟨text.map fun c => [c], ?_, ?_, ?_, ?_, ?_⟩
    · refine Intake.mustEach_of_forall (List.forall_mem_map.mpr fun c among tail => ?_) rest
      exact ⟨[c], [], ⟨⟨c, accepted c among, rfl⟩, trivial⟩, ⟨rfl, trivial⟩, rfl⟩
    · simpa using enough
    · simpa using within
    · rintro _ tail ⟨c, accepted, rfl⟩ front
      have refused := spares c tail front
      simp_all
    · simp [← List.flatMap_def]

end Classes

/-! ### Ignored text -/

section Ignored

variable {env : Env} {accept : Char → Bool}

variable {skipper : Expr} (takes : (expr env true skipper).TakesOne env accept)

include takes

/-- Skipping one kind of text goes on as long as there is any, and tells whether there was. -/
theorem skipOne_meets (input : List Char) : Eventually fun fuel =>
    ∀ (here : Position) (rounds : Nat) (progress : Bool), here.input = env.input →
      here.rest = input → input.length < rounds →
        Action.Meets true (Eval.skipOne (eval env fuel) skipper rounds here progress) fun skipped =>
          here.Reads (input.takeWhile accept) skipped.1 ∧
            skipped.2 = (progress || !(input.takeWhile accept).isEmpty) := by
  -- Each round but the last takes a character, so that the induction is on the input.
  induction input with
  | nil =>
    refine (takes []).mono fun fuel stops here rounds progress whole front enough => ?_
    obtain ⟨rounds, rfl⟩ := Nat.exists_eq_add_of_le' (Nat.lt_of_le_of_lt (Nat.zero_le _) enough)
    refine (stops here _ whole front rfl).bind fun result reached => ?_
    cases result with
    | none => exact .pure ⟨.refl here, by simp⟩
    | some found => cases reached
  | cons c rest ih =>
    refine ((takes (c :: rest)).and ih).mono fun fuel both here rounds progress whole front => ?_
    intro enough
    obtain ⟨rounds, rfl⟩ := Nat.exists_eq_add_of_le' (Nat.lt_of_le_of_lt (Nat.zero_le _) enough)
    refine (both.1 here _ whole front rfl).bind fun result reached => ?_
    by_cases accepted : accept c = true
    · rw [leading, if_pos accepted] at reached
      cases result with
      | none => cases reached
      | some found =>
        cases reached with
        | success reads =>
          have moved : ¬found.stop.same here = true := by simp [Position.same, reads.offset_eq]
          have left : found.stop.rest = rest :=
            List.append_cancel_left (reads.rest_eq.symm.trans front)
          dsimp only
          rw [if_neg moved]
          refine (both.2 found.stop rounds true (reads.input_eq.trans whole) left ?_).mono ?_
          · simpa using enough
          · rintro skipped ⟨more, progressed⟩
            refine ⟨?_, by simp [accepted, progressed]⟩
            simpa [accepted] using reads.trans more
    · rw [leading, if_neg accepted] at reached
      cases result with
      | none =>
        refine .pure ⟨?_, by simp [accepted]⟩
        simpa [accepted] using Position.Reads.refl here
      | some found => cases reached

omit takes in
theorem takeWhile_dropWhile (accept : Char → Bool) (input : List Char) :
    (input.dropWhile accept).takeWhile accept = [] := by
  induction input with
  | nil => rfl
  | cons c rest ih => by_cases accepted : accept c = true <;> simp [accepted, ih]

omit takes in
theorem skipEach_single (run : Eval.Matcher) (rounds : Nat) (here : Position) (progress : Bool) :
    Eval.skipEach run rounds [skipper] here progress =
      Eval.skipOne run skipper rounds here progress := by
  simp [Eval.skipEach]

/-- After one kind of text was skipped there is none of it left, so that the next time is the last
one. -/
theorem skipAll_meets (input : List Char) : Eventually fun fuel =>
    ∀ (here : Position) (rounds : Nat), here.input = env.input → here.rest = input →
      input.length + 2 < rounds →
        Action.Meets true (Eval.skipAll (eval env fuel) [skipper] rounds here) fun stop =>
          here.Reads (input.takeWhile accept) stop := by
  have again := skipOne_meets takes (input.dropWhile accept)
  refine ((skipOne_meets takes input).and again).mono fun fuel both here rounds whole front => ?_
  intro enough
  obtain ⟨rounds, rfl⟩ := Nat.exists_eq_add_of_le' (Nat.lt_of_le_of_lt (Nat.zero_le _) enough)
  rw [Eval.skipAll, skipEach_single]
  refine (both.1 here rounds false whole front (by omega)).bind fun skipped met => ?_
  obtain ⟨stop, progress⟩ := skipped
  obtain ⟨reads, progressed⟩ := met
  dsimp only at reads progressed ⊢
  by_cases moved : progress = true
  · rw [if_pos moved]
    have left : stop.rest = input.dropWhile accept := by
      have split : input.takeWhile accept ++ stop.rest =
          input.takeWhile accept ++ input.dropWhile accept := by
        rw [← reads.rest_eq, front, List.takeWhile_append_dropWhile]
      exact List.append_cancel_left split
    have none := takeWhile_dropWhile accept input
    obtain ⟨rounds, rfl⟩ := Nat.exists_eq_add_of_le' (show 1 ≤ rounds by omega)
    have shorter := (List.dropWhile_suffix accept (l := input)).length_le
    rw [Eval.skipAll, skipEach_single]
    have last := both.2 stop rounds false (reads.input_eq.trans whole) left (by omega)
    rw [none] at last
    refine last.bind fun skipped met => ?_
    obtain ⟨final, progress⟩ := skipped
    obtain ⟨still, stopped⟩ := met
    dsimp only at still stopped ⊢
    rw [stopped]
    have arrived := reads.trans still
    rw [List.append_nil] at arrived
    exact .pure arrived
  · rw [if_neg moved]
    exact .pure reads

theorem ignored_takes (single : env.skippers = [skipper]) (input : List Char) :
    (expr env false .ignored).Takes env input (some (input.takeWhile accept)) := by
  have enough := Eventually.above (input.length + 2)
  refine ((skipAll_meets takes input).and enough).succ fun fuel both here action whole front => ?_
  rintro rfl
  simp only [eval, Eval.ignored, single]
  refine ((both.1 here fuel whole front both.2).within _).bind fun stop reads => ?_
  exact .pure (.success reads)

/-- Ignored text is the longest row of characters of the class. -/
theorem gap_takes (single : env.skippers = [skipper]) (input : List Char) :
    (gap env false).Takes env input (some (input.takeWhile accept)) := by
  refine (ignored_takes takes single input).mono fun fuel stops here action whole front => ?_
  rintro rfl
  simp only [Eval.gapUnless, Eval.gap, bind_assoc, Bool.false_eq_true, if_false]
  refine (stops here _ whole front rfl).bind fun result reached => ?_
  cases result with
  | none => cases reached
  | some found => exact .pure reached

theorem gap_recognizes (single : env.skippers = [skipper]) (size : Nat) :
    Recognizes env size (gap env false)
      (.of (fun text => ∀ c ∈ text, accept c = true) (Spares accept)) := by
  intro input _
  refine ⟨some (input.takeWhile accept), gap_takes takes single input, ?_, ?_⟩
  · rintro text ⟨⟩
    refine ⟨?_, _, (List.takeWhile_append_dropWhile).symm⟩
    intro c among
    exact List.all_eq_true.mp List.all_takeWhile c among
  · rintro text rest ⟨accepted, spares⟩ rfl
    rw [List.takeWhile_append_of_pos accepted]
    cases rest with
    | nil => simp
    | cons c tail => simp [spares c tail rfl]

end Ignored

end Scan

end Peg
