import Mathlib.Data.Nat.Bitwise

set_option autoImplicit false

/-! A byte as a bit and a magnitude of seven bits. -/

namespace Bytes

theorem signBit (byte : UInt8) : byte &&& 0x80 ≠ 0 ↔ 128 ≤ byte.toNat := by
  have bound := byte.toNat_lt
  have mask : (0x80 : UInt8).toNat = 2 ^ 7 := rfl
  rw [ne_eq, ← UInt8.toNat_inj, UInt8.toNat_and, mask, Nat.and_two_pow,
    Nat.testBit_eq_decide_div_mod_eq]
  by_cases low : byte.toNat < 128
  · rw [Nat.div_eq_of_lt low]
    simp
    omega
  · have one : byte.toNat / 2 ^ 7 = 1 := by omega
    rw [one]
    simp
    omega

theorem magnitude (byte : UInt8) : (byte &&& 0x7f).toNat = byte.toNat % 128 := by
  have mask : (0x7f : UInt8).toNat = 2 ^ 7 - 1 := rfl
  rw [UInt8.toNat_and, mask, Nat.and_two_pow_sub_one_eq_mod]

theorem withSign (byte : UInt8) (small : byte.toNat < 128) :
    (byte ||| 0x80).toNat = byte.toNat + 128 := by
  have mask : (0x80 : UInt8).toNat = 2 ^ 7 * 1 := rfl
  rw [UInt8.toNat_or, mask, Nat.or_comm, ← Nat.two_pow_add_eq_or_of_lt small]
  omega

end Bytes
