import Peg.Text.Lowercase

/-!
# Letters in either case

Which characters have the lower-case form of an ASCII letter in common with it, which are their own
lower-case forms, and where the lower-case form of a text is not that of its characters one by one:
at its final capital sigmas.
-/
namespace Peg.Text

/-! ### The tables -/

theorem inRanges_eq (ranges : Array (Nat × Nat)) (code : Nat) :
    inRanges ranges code = ranges.toList.any fun range => range.1 ≤ code && code ≤ range.2 := by
  rw [inRanges, Array.any_toList]

/-- A character that no run of capital letters holds is its own lower-case form. -/
theorem lowerSimple_eq_self {c : Char}
    (small : ∀ run ∈ caseRuns.toList,
      ¬(run.first ≤ c.toNat && c.toNat ≤ run.last && (c.toNat - run.first) % run.step == 0)) :
    lowerSimple c = c := by
  have found := Array.find?_eq_none.mpr fun run among => small run (Array.mem_toList_iff.mpr among)
  unfold lowerSimple
  generalize caseRuns = runs at found
  simp only [found]

/-! ### The letter e -/

/-- Only the first run of capital letters leads to the letter, and only from its capital. -/
theorem code_of_shift_to_e {run : CaseRun} (among : run ∈ caseRuns) {code : Nat}
    (low : run.first ≤ code) (high : code ≤ run.last)
    (reached : ((code : Int) + run.shift).toNat = 101) : code = 69 := by
  have runs : ∀ run ∈ caseRuns.toList, (101 - run.shift).toNat = 69 ∨
      (101 - run.shift).toNat < run.first ∨ run.last < (101 - run.shift).toNat := by
    decide +kernel
  have ways := runs run (Array.mem_toList_iff.mpr among)
  omega

theorem code_of_ofNat_eq_e {code : Nat} (same : Char.ofNat code = 'e') : code = 101 := by
  by_cases valid : code.isValidChar
  · have codes := congrArg Char.toNat same
    rwa [Char.ofNat, dif_pos valid] at codes
  · -- What is no code point gives the null character.
    rw [Char.ofNat, dif_neg valid] at same
    cases congrArg Char.toNat same

theorem eq_of_lowerSimple {c : Char} (same : lowerSimple c = 'e') : c = 'e' ∨ c = 'E' := by
  have shifts : ∀ run ∈ caseRuns, ∀ code : Nat, run.first ≤ code → code ≤ run.last →
      ((code : Int) + run.shift).toNat = 101 → code = 69 :=
    fun _ among _ low high reached => code_of_shift_to_e among low high reached
  unfold lowerSimple at same
  -- The table itself is of no more concern.
  generalize caseRuns = runs at same shifts
  dsimp only at same
  split at same
  next run found =>
    have accepted := Array.find?_some found
    simp only [Bool.and_eq_true, decide_eq_true_eq] at accepted
    have code := shifts run (Array.mem_of_find?_eq_some found) c.toNat accepted.1.1 accepted.1.2
      (code_of_ofNat_eq_e same)
    right
    rw [← Char.ofNat_toNat c, code]
  next => exact .inl same

/-- Only the letter itself and its capital have its lower-case form. -/
theorem lower_eq_lower_e {c : Char} : lower [c] = lower ['e'] ↔ c = 'e' ∨ c = 'E' := by
  have small : lower ['e'] = ['e'] := congrArg ([·]) (lowerSimple_eq_self (by decide +kernel))
  constructor
  · intro same
    rw [small] at same
    simp only [lower, lowerFrom, lowerAt, List.append_nil] at same
    split at same
    · split at same <;> cases same
    · split at same
      · cases same
      · exact eq_of_lowerSimple (List.cons.inj same).1
  · rintro (rfl | rfl)
    · rfl
    · rw [small]
      decide +kernel

/-! ### Final sigmas -/

/-- Only a final capital sigma has another lower-case form than if it stood alone. -/
theorem lowerAt_eq (before : List Char) (c : Char) (after : List Char) :
    lowerAt before c after =
      if c = 'Σ' ∧ isFinalSigma before after = true then ['ς'] else lowerChar c := by
  unfold lowerChar lowerAt
  by_cases sigma : c = 'Σ'
  · -- A sigma that stands alone ends no word.
    have alone : isFinalSigma [] [] = false := rfl
    by_cases final : isFinalSigma before after <;> simp [sigma, final, alone]
  · simp [sigma]

/-- At a place of a text that comes after other characters, nearest first, a capital sigma stands
that ends a word. -/
def FinalSigmaAt (before text : List Char) (place : Nat) : Prop :=
  text[place]? = some 'Σ' ∧
    isFinalSigma ((text.take place).reverse ++ before) (text.drop (place + 1)) = true

theorem finalSigmaAt_zero {before text : List Char} {c : Char} :
    FinalSigmaAt before (c :: text) 0 ↔ c = 'Σ' ∧ isFinalSigma before text = true := by
  simp [FinalSigmaAt]

theorem finalSigmaAt_succ {before text : List Char} {c : Char} {place : Nat} :
    FinalSigmaAt before (c :: text) (place + 1) ↔ FinalSigmaAt (c :: before) text place := by
  simp [FinalSigmaAt]

/-- Texts that agree character by character, and in where they have a final capital sigma, have one
lower-case form. -/
theorem lowerFrom_congr {before behind text other : List Char}
    (letters : text.map lowerChar = other.map lowerChar)
    (sigmas : ∀ place, FinalSigmaAt before text place ↔ FinalSigmaAt behind other place) :
    lowerFrom before text = lowerFrom behind other := by
  induction text generalizing before behind other with
  | nil =>
    rw [List.map_nil, eq_comm, List.map_eq_nil_iff] at letters
    subst letters
    rfl
  | cons c text ih =>
    cases other with
    | nil => cases letters
    | cons d other =>
      obtain ⟨alike, letters⟩ := List.cons.inj letters
      have first : lowerAt before c text = lowerAt behind d other := by
        have same := sigmas 0
        rw [finalSigmaAt_zero, finalSigmaAt_zero] at same
        simp only [lowerAt_eq, same, alike]
      have further : ∀ place, FinalSigmaAt (c :: before) text place ↔
          FinalSigmaAt (d :: behind) other place := fun place => by
        rw [← finalSigmaAt_succ, ← finalSigmaAt_succ]
        exact sigmas (place + 1)
      rw [lowerFrom, lowerFrom, first, ih letters further]

end Peg.Text
