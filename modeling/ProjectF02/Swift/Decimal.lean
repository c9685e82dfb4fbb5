import Mathlib.Data.String.Basic
import ProjectF02.Swift.Value

/-! The decimal renderings used as keys: injective, and made of digits and a sign. -/

set_option autoImplicit false

namespace ProjectF02.Swift

def isDecimal (c : Char) : Bool := c.isDigit || c == '-'

theorem isDecimal_of_mem_toString {n : ℤ} {c : Char} (member : c ∈ (toString n).toList) :
    isDecimal c = true := by
  have shown : toString n = n.repr := rfl
  rw [shown, Int.repr_eq_if] at member
  have digits (k : Nat) (found : c ∈ k.repr.toList) : isDecimal c = true := by
    rw [Nat.toList_repr] at found
    simp [isDecimal, Nat.isDigit_of_mem_toDigits (by decide) (by decide) found]
  split at member
  next => exact digits _ member
  next =>
    rw [String.toList_append, List.mem_append] at member
    rcases member with sign | found
    · have : c = '-' := by simpa using sign
      simp [isDecimal, this]
    · exact digits _ found

theorem toString_int_ne_empty (n : ℤ) : toString n ≠ "" := by
  have shown : toString n = n.repr := rfl
  rw [shown, Int.repr_eq_if]
  split
  · exact Nat.repr_ne_empty
  · intro empty
    simpa using congrArg String.toList empty

theorem toString_nat_injective : Function.Injective (toString : ℕ → String) := by
  intro m n same
  have digits : Nat.toDigits 10 m = Nat.toDigits 10 n := by
    rw [← Nat.toList_repr, ← Nat.toList_repr]
    exact congrArg String.toList same
  rw [← @Nat.ofDigitChars_ten_toDigits m, digits, Nat.ofDigitChars_ten_toDigits]

/-- Only the negative numbers have a sign, and without it the digits decide. -/
theorem toString_int_injective : Function.Injective (toString : ℤ → String) := by
  have unsigned (k : ℕ) (digits : String) : k.repr ≠ "-" ++ digits := by
    intro same
    have sign : '-' ∈ k.repr.toList := by
      rw [same, String.toList_append]
      exact List.mem_append_left _ (by decide)
    rw [Nat.toList_repr] at sign
    exact absurd (Nat.isDigit_of_mem_toDigits (by decide) (by decide) sign) (by decide)
  intro m n same
  have shown : m.repr = n.repr := same
  rw [Int.repr_eq_if, Int.repr_eq_if] at shown
  split at shown <;> split at shown
  · have magnitude := toString_nat_injective shown
    omega
  · exact absurd shown (unsigned _ _)
  · exact absurd shown.symm (unsigned _ _)
  · have digits : (-m).toNat.repr = (-n).toNat.repr := (String.append_right_inj _).mp shown
    have magnitude := toString_nat_injective digits
    omega

section Whole
variable {Double : Type} [Ring Double] [LinearOrder Double] [FloorRing Double]

theorem isDecimal_of_mem_formatWhole {d : Double} {c : Char} (member : c ∈ (formatWhole d).toList) :
    isDecimal c = true := by
  unfold formatWhole at member
  split at member
  · have zero : c = '-' ∨ c = '0' := by simpa using member
    rcases zero with rfl | rfl <;> decide
  · exact isDecimal_of_mem_toString member

theorem formatWhole_ne_empty (d : Double) : formatWhole d ≠ "" := by
  unfold formatWhole
  split
  · decide
  · exact toString_int_ne_empty _

theorem formatWhole_intCast [IsStrictOrderedRing Double] (n : ℤ) :
    formatWhole (n : Double) = toString n := by
  have rounded : roundHalfEven (n : Double) = n := by
    unfold roundHalfEven
    simp
  unfold formatWhole
  rw [rounded, if_neg]
  rintro ⟨negative, rfl⟩
  simp at negative

end Whole

end ProjectF02.Swift
