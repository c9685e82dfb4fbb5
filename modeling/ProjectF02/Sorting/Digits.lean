import Mathlib.Algebra.Group.Nat.Defs
import Mathlib.Data.List.Lex
import Mathlib.Data.Nat.Init
import Mathlib.Order.Fin.Basic

/-! Numbers written with a fixed number of digits, and the order of the texts.

The first digit weighs most, so texts of one length stand in the order of their
numbers.
-/

set_option autoImplicit false

namespace ProjectF02.Sorting

variable {Item Other : Type} [LinearOrder Item] [LinearOrder Other]

theorem append_lt_append_iff {front other : List Item} (same : front.length = other.length)
    (back rest : List Item) :
    front ++ back < other ++ rest ↔ front < other ∨ front = other ∧ back < rest := by
  induction front generalizing other with
  | nil =>
    obtain rfl := List.length_eq_zero_iff.mp same.symm
    simp
  | cons first front ih =>
    cases other with
    | nil => cases same
    | cons second other =>
      have shorter := ih (Nat.succ.inj same)
      simp only [List.cons_append, List.cons_lt_cons_iff, shorter, List.cons.injEq]
      tauto

theorem map_lt_map_iff {letter : Item → Other} (mono : StrictMono letter) (left right : List Item) :
    left.map letter < right.map letter ↔ left < right := by
  induction left generalizing right with
  | nil => cases right <;> simp
  | cons first left ih =>
    cases right with
    | nil => simp
    | cons second right =>
      simp only [List.map_cons, List.cons_lt_cons_iff, mono.lt_iff_lt, mono.injective.eq_iff, ih]

/-- The last digits of a number, as many as the width. -/
def digits (top : ℕ) : ℕ → ℕ → List (Fin (top + 1))
  | 0, _ => []
  | width + 1, number => digits top width (number / (top + 1)) ++ [Fin.ofNat (top + 1) number]

@[simp] theorem length_digits (top width number : ℕ) : (digits top width number).length = width := by
  induction width generalizing number with
  | zero => rfl
  | succ width ih => rw [digits, List.length_append, ih, List.length_singleton]

theorem lt_iff_div_mod (first second base : ℕ) :
    first < second ↔ first / base < second / base ∨ first / base = second / base ∧ first % base < second % base := by
  have parts := Nat.div_add_mod first base
  have otherParts := Nat.div_add_mod second base
  constructor
  · intro less
    rcases lt_or_eq_of_le (Nat.div_le_div_right (le_of_lt less)) with before | same
    · exact .inl before
    · rw [same] at parts
      exact .inr ⟨same, by omega⟩
  · rintro (before | ⟨same, less⟩)
    · exact not_le.mp fun back => not_lt.mpr (Nat.div_le_div_right back) before
    · rw [same] at parts
      omega

theorem eq_iff_div_mod (first second base : ℕ) :
    first = second ↔ first / base = second / base ∧ first % base = second % base := by
  constructor
  · rintro rfl
    exact ⟨rfl, rfl⟩
  · rintro ⟨same, last⟩
    rw [← Nat.div_add_mod first base, same, last, Nat.div_add_mod]

theorem digits_lt_iff (top : ℕ) {width first second : ℕ} (fits : first < (top + 1) ^ width)
    (other : second < (top + 1) ^ width) :
    (digits top width first < digits top width second ↔ first < second) ∧
      (digits top width first = digits top width second ↔ first = second) := by
  induction width generalizing first second with
  | zero =>
    rw [Nat.pow_zero, Nat.lt_one_iff] at fits other
    subst fits other
    simp [digits]
  | succ width ih =>
    have higher : first / (top + 1) < (top + 1) ^ width := Nat.div_lt_of_lt_mul (by rwa [← Nat.pow_succ'])
    have higherOther : second / (top + 1) < (top + 1) ^ width := Nat.div_lt_of_lt_mul (by rwa [← Nat.pow_succ'])
    obtain ⟨less, equal⟩ := ih higher higherOther
    have lengths : (digits top width (first / (top + 1))).length = (digits top width (second / (top + 1))).length := by
      rw [length_digits, length_digits]
    have lastLess : Fin.ofNat (top + 1) first < Fin.ofNat (top + 1) second ↔ first % (top + 1) < second % (top + 1) :=
      Iff.rfl
    have lastSame : Fin.ofNat (top + 1) first = Fin.ofNat (top + 1) second ↔ first % (top + 1) = second % (top + 1) :=
      Fin.ext_iff
    constructor
    · rw [digits, digits, append_lt_append_iff lengths, less, equal, lt_iff_div_mod first second (top + 1)]
      simp only [List.cons_lt_cons_iff, List.not_lt_nil, and_false, or_false, lastLess]
    · rw [digits, digits, eq_iff_div_mod first second (top + 1), ← equal, ← lastSame]
      constructor
      · intro same
        obtain ⟨front, last⟩ := List.append_inj same lengths
        exact ⟨front, List.singleton_inj.mp last⟩
      · rintro ⟨front, last⟩
        rw [front, last]

/-- The text after a text of digits, if there is one. The digits come with the last one first. -/
def successor {top : ℕ} : List (Fin (top + 1)) → Option (List (Fin (top + 1)))
  | [] => none
  | digit :: higher =>
    if digit = Fin.last top then (successor higher).map (0 :: ·) else some ((digit + 1) :: higher)

theorem lt_successor {top : ℕ} {text next : List (Fin (top + 1))} (found : successor text = some next) :
    text.length = next.length ∧ text.reverse < next.reverse := by
  induction text generalizing next with
  | nil => cases found
  | cons digit higher ih =>
    rw [successor] at found
    split at found
    · obtain ⟨rest, more, rfl⟩ := Option.map_eq_some_iff.mp found
      obtain ⟨same, less⟩ := ih more
      refine ⟨congrArg Nat.succ same, ?_⟩
      rw [List.reverse_cons, List.reverse_cons, append_lt_append_iff (by simpa using same)]
      exact .inl less
    next room =>
      cases found
      refine ⟨rfl, ?_⟩
      rw [List.reverse_cons, List.reverse_cons, append_lt_append_iff rfl]
      have less : digit < digit + 1 := Fin.lt_add_one_iff.mpr (Fin.lt_last_iff_ne_last.mpr room)
      exact .inr ⟨rfl, List.cons_lt_cons_iff.mpr (.inl less)⟩

theorem successor_eq_none_iff {top : ℕ} {text : List (Fin (top + 1))} :
    successor text = none ↔ ∀ digit ∈ text, digit = Fin.last top := by
  induction text with
  | nil => simp [successor]
  | cons digit higher ih =>
    rw [successor, List.forall_mem_cons, ← ih]
    by_cases full : digit = Fin.last top <;> simp [full]

end ProjectF02.Sorting
