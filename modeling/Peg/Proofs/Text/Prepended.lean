import Peg.Proofs.Natural.Positions

/-!
# Text in front of a text

What can be matched at a position depends on what comes after it. If more text is put in front, the
same place is further on, but everything that is looked up from there is found as before, only
further on by as much.
-/
namespace Peg

/-! ### Inputs -/

namespace Input

/-- An input, with an identity of its own, in which some text comes in front. -/
def prepend (input : Input) (key : Nat) (front : List Char) : Input :=
  ⟨key, (front ++ input.chars.toList).toArray⟩

variable (input : Input) (key : Nat) (front : List Char)

@[simp] theorem prepend_id : (input.prepend key front).id = key := rfl

@[simp] theorem size_prepend : (input.prepend key front).size = front.length + input.size := by
  simp [prepend, size]

@[simp] theorem getElem?_prepend (place : Nat) :
    (input.prepend key front).chars[front.length + place]? = input.chars[place]? := by
  simp only [prepend, List.getElem?_toArray]
  rw [List.getElem?_append_right (Nat.le_add_right _ _), Nat.add_sub_cancel_left,
    Array.getElem?_toList]

theorem continuesWith_prepend (place : Nat) (text : List Char) :
    (input.prepend key front).continuesWith (front.length + place) text =
      input.continuesWith place text := by
  induction text generalizing place with
  | nil => rfl
  | cons c rest ih =>
    simp only [continuesWith, getElem?_prepend]
    rw [Nat.add_assoc, ih]

theorem agreement_prepend {α : Type} [BEq α] (fold : Char → α) (place : Nat) (text : List Char) :
    (input.prepend key front).agreement fold (front.length + place) text =
      input.agreement fold place text := by
  induction text generalizing place with
  | nil => rfl
  | cons c rest ih =>
    simp only [agreement, getElem?_prepend]
    rw [Nat.add_assoc, ih]

theorem find?_prepend (texts : List (List Char)) (place count : Nat) :
    (input.prepend key front).find? texts (front.length + place) count =
      (input.find? texts place count).map (front.length + ·) := by
  have here : ∀ place, texts.any ((input.prepend key front).continuesWith (front.length + place)) =
      texts.any (input.continuesWith place) := by
    intro place
    exact congrArg texts.any (funext fun text => continuesWith_prepend input key front place text)
  induction count generalizing place with
  | zero =>
    simp only [find?, here]
    split <;> rfl
  | succ count ih =>
    simp only [find?, here]
    split
    · rfl
    · rw [Nat.add_assoc, ih]

theorem extract_prepend (start stop : Nat) :
    ((input.prepend key front).chars.extract (front.length + start) (front.length + stop)).toList =
      (input.chars.extract start stop).toList := by
  rw [Array.toList_extract, Array.toList_extract, List.extract_eq_take_drop,
    List.extract_eq_take_drop, Nat.add_sub_add_left]
  congr 1
  exact List.drop_length_add_append ..

/-- A slice that is not counted from the end is found further on. -/
theorem slice_prepend {start stop : Int} (early : 0 ≤ start) (late : 0 ≤ stop) :
    (input.prepend key front).slice (start + front.length) (stop + front.length) =
      input.slice start stop := by
  have bound : ∀ {place : Int}, 0 ≤ place →
      Text.clampBound (input.prepend key front).chars.size (place + front.length) =
        front.length + Text.clampBound input.chars.size place := by
    intro place nonneg
    have size := size_prepend input key front
    simp only [Input.size] at size
    unfold Text.clampBound
    rw [size]
    split <;> split <;> omega
  unfold slice Text.slice
  rw [bound early, bound late, extract_prepend]

end Input

/-! ### Positions -/

namespace Position

/-- The same place where some text comes in front. -/
def prepend (here : Position) (key : Nat) (front : List Char) : Position :=
  ⟨here.input.prepend key front, front.length + here.offset, by
    have bound := here.offset_le
    rw [Input.size_prepend]
    omega⟩

variable (here : Position) (key : Nat) (front : List Char)

@[simp] theorem prepend_input : (here.prepend key front).input = here.input.prepend key front := rfl

@[simp] theorem prepend_offset :
    (here.prepend key front).offset = front.length + here.offset := rfl

theorem atEnd_prepend : (here.prepend key front).atEnd = here.atEnd := by
  simp only [atEnd, prepend_offset, prepend_input, Input.size_prepend]
  rw [Bool.eq_iff_iff, beq_iff_eq, beq_iff_eq]
  omega

theorem remaining_prepend : (here.prepend key front).remaining = here.remaining := by
  simp only [remaining, prepend_offset, prepend_input, Input.size_prepend]
  omega

theorem mismatchOffset_prepend (text : String) (ignoreCase : Bool) :
    (here.prepend key front).mismatchOffset text ignoreCase =
      front.length + here.mismatchOffset text ignoreCase := by
  simp only [mismatchOffset, prepend_offset, prepend_input, Input.agreement_prepend]
  rw [Nat.add_assoc]

theorem matchLiteral_prepend (text : String) :
    (here.prepend key front).matchLiteral text =
      (here.matchLiteral text).map (·.prepend key front) := by
  have continues : (here.prepend key front).input.continuesWith (here.prepend key front).offset
      text.toList = here.input.continuesWith here.offset text.toList :=
    Input.continuesWith_prepend ..
  unfold matchLiteral
  by_cases goesOn : here.input.continuesWith here.offset text.toList = true
  · rw [dif_pos goesOn, dif_pos (continues.trans goesOn)]
    exact congrArg some (eq_of_offset rfl (Nat.add_assoc ..))
  · rw [dif_neg goesOn, dif_neg (fun also => goesOn (continues.symm.trans also))]
    rfl

theorem matchIgnoringCase_prepend (text : String) :
    (here.prepend key front).matchIgnoringCase text =
      (here.matchIgnoringCase text).map fun found => (found.1.prepend key front, found.2) := by
  have extracted : ((here.prepend key front).input.chars.extract (here.prepend key front).offset
      ((here.prepend key front).offset + text.toList.length)).toList =
        (here.input.chars.extract here.offset (here.offset + text.toList.length)).toList := by
    rw [prepend_offset, Nat.add_assoc]
    exact Input.extract_prepend ..
  have inside : (here.prepend key front).offset + text.toList.length ≤
      (here.prepend key front).input.size ↔ here.offset + text.toList.length ≤ here.input.size := by
    rw [prepend_input, Input.size_prepend, prepend_offset]
    omega
  unfold matchIgnoringCase
  dsimp only
  by_cases enough : here.offset + text.toList.length ≤ here.input.size
  · rw [dif_pos enough, dif_pos (inside.mpr enough), extracted]
    split
    · exact congrArg (fun stop => some (stop, _)) (eq_of_offset rfl (Nat.add_assoc ..))
    · rfl
  · rw [dif_neg enough, dif_neg (mt inside.mp enough)]
    rfl

theorem matchChar_prepend (accept : Char → Bool) :
    (here.prepend key front).matchChar accept =
      (here.matchChar accept).map fun found => (found.1.prepend key front, found.2) := by
  have inside : (here.prepend key front).offset < (here.prepend key front).input.chars.size ↔
      here.offset < here.input.chars.size := by
    have size : (here.prepend key front).input.chars.size = front.length + here.input.chars.size :=
      Input.size_prepend ..
    rw [size, prepend_offset]
    omega
  unfold matchChar
  by_cases more : here.offset < here.input.chars.size
  · have further := inside.mpr more
    have same : (here.prepend key front).input.chars[(here.prepend key front).offset] =
        here.input.chars[here.offset] := by
      have found : (here.prepend key front).input.chars[(here.prepend key front).offset]? =
          here.input.chars[here.offset]? := Input.getElem?_prepend ..
      rw [Array.getElem?_eq_getElem further, Array.getElem?_eq_getElem more] at found
      exact Option.some.inj found
    rw [dif_pos more, dif_pos further]
    dsimp only
    rw [same]
    split
    · exact congrArg (fun stop => some (stop, _)) (eq_of_offset rfl (Nat.add_assoc ..))
    · rfl
  · rw [dif_neg more, dif_neg (mt inside.mp more)]
    rfl

theorem skip_prepend (count : Nat) :
    (here.prepend key front).skip count =
      (here.skip count).map (Option.map (·.prepend key front)) := by
  unfold skip
  rw [remaining_prepend]
  split
  next enough =>
    have bound := here.offset_le
    unfold remaining at enough
    have inside : 0 ≤ (here.offset : Int) + count ∧
        (here.offset : Int) + count ≤ here.input.size := by omega
    have further : 0 ≤ ((here.prepend key front).offset : Int) + count ∧
        ((here.prepend key front).offset : Int) + count ≤ (here.prepend key front).input.size := by
      rw [prepend_input, Input.size_prepend, prepend_offset]
      omega
    unfold ofOffset
    rw [dif_pos inside, dif_pos further]
    refine congrArg (fun stop => Except.ok (some stop)) (eq_of_offset rfl ?_)
    simp only [prepend_offset]
    omega
  · rfl

theorem skipUntil_prepend (texts : List String) :
    (here.prepend key front).skipUntil texts =
      (here.skipUntil texts).map (·.prepend key front) := by
  have found : (here.prepend key front).input.find? (texts.map String.toList)
      (here.prepend key front).offset (here.prepend key front).remaining =
        (here.input.find? (texts.map String.toList) here.offset here.remaining).map
          (front.length + ·) := by
    rw [remaining_prepend]
    exact Input.find?_prepend ..
  unfold skipUntil
  split
  next place reached =>
    obtain ⟨early, reachedEarly, rfl⟩ := Option.map_eq_some_iff.mp (found.symm.trans reached)
    split
    next other also =>
      cases reachedEarly.symm.trans also
      exact congrArg some (eq_of_offset rfl rfl)
    next missing => cases reachedEarly.symm.trans missing
  next missing =>
    have missingEarly := Option.map_eq_none_iff.mp (found.symm.trans missing)
    split
    next other also => cases missingEarly.symm.trans also
    · rfl

end Position

end Peg
