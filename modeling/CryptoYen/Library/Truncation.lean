import Mathlib.Algebra.Group.Nat.Defs
import Mathlib.Data.Nat.Size

set_option autoImplicit false

/-! Numbers in floating notation, rounded towards zero: the lowest bits are dropped, and how many is
up to the size of the number. -/

namespace Truncation

variable (quantum : Nat → Nat)

def truncate (n : Nat) : Nat := n / 2 ^ quantum n.size * 2 ^ quantum n.size

def KeepsLeading : Prop := ∀ size, 0 < size → quantum size < size

variable {quantum}

theorem truncate_le (n : Nat) : truncate quantum n ≤ n := Nat.div_mul_le_self n _

theorem truncate_greatest (n x : Nat) (multiple : 2 ^ quantum n.size ∣ x) (le : x ≤ n) :
    x ≤ truncate quantum n := by
  obtain ⟨steps, rfl⟩ := multiple
  rw [truncate, Nat.mul_comm]
  apply Nat.mul_le_mul_right
  rw [Nat.le_div_iff_mul_le (Nat.two_pow_pos _), Nat.mul_comm]
  exact le

section leading

variable (keeps : KeepsLeading quantum)

include keeps

theorem leading_le_truncate (n : Nat) (positive : 0 < n) :
    2 ^ (n.size - 1) ≤ truncate quantum n := by
  have size := Nat.size_pos.mpr positive
  have below := keeps n.size size
  have reached : 2 ^ (n.size - 1) ≤ n := Nat.lt_size.mp (by omega)
  exact truncate_greatest n _ (Nat.pow_dvd_pow 2 (by omega)) reached

theorem size_truncate (n : Nat) : (truncate quantum n).size = n.size := by
  rcases Nat.eq_zero_or_pos n with rfl | positive
  · rw [truncate, Nat.zero_div, Nat.zero_mul]
  · have size := Nat.size_pos.mpr positive
    have above := Nat.lt_size.mpr (leading_le_truncate keeps n positive)
    have below := Nat.size_le_size (@truncate_le quantum n)
    omega

theorem truncate_mono (m n : Nat) (le : m ≤ n) : truncate quantum m ≤ truncate quantum n := by
  rcases Nat.lt_or_ge m.size n.size with shorter | same
  · -- a leading bit is in between
    have positive : 0 < n := Nat.size_pos.mp (by omega)
    calc truncate quantum m ≤ m := truncate_le m
      _ ≤ 2 ^ m.size := Nat.le_of_lt (Nat.lt_size_self m)
      _ ≤ 2 ^ (n.size - 1) := Nat.pow_le_pow_right (by decide) (by omega)
      _ ≤ truncate quantum n := leading_le_truncate keeps n positive
  · have sizes : m.size = n.size := Nat.le_antisymm (Nat.size_le_size le) same
    rw [truncate, truncate, sizes]
    exact Nat.mul_le_mul_right _ (Nat.div_le_div_right le)

end leading

end Truncation
