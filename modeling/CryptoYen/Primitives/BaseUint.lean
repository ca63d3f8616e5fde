import CryptoYen.Library.Limbs
import CryptoYen.Primitives.Transaction

set_option autoImplicit false

namespace CryptoYen

namespace BaseUint

def WIDTH : Nat := 8

def pn (a : Uint256) : List (BitVec 32) := Limbs.ofNat WIDTH a.toNat

def ofPn (words : List (BitVec 32)) : Uint256 := BitVec.ofNat 256 (Limbs.value words)

def fromUint64 (b : BitVec 64) : Uint256 :=
  ofPn (b.setWidth 32 :: (b >>> 32).setWidth 32 :: List.replicate (WIDTH - 2) 0)

def complement (a : Uint256) : Uint256 := ofPn (Limbs.complement (pn a))

def add (a b : Uint256) : Uint256 := ofPn (Limbs.add (pn a) (pn b))

def mul (a b : Uint256) : Uint256 := ofPn (Limbs.mul (pn a) (pn b))

def mulWord (a : Uint256) (b32 : BitVec 32) : Uint256 := ofPn (Limbs.mulWord b32 (pn a))

def shiftLeft (a : Uint256) (shift : Nat) : Uint256 := ofPn (Limbs.shiftLeft (pn a) shift)

def shiftRight (a : Uint256) (shift : Nat) : Uint256 := ofPn (Limbs.shiftRight (pn a) shift)

def compareTo (a b : Uint256) : Ordering := Limbs.compareTo (pn a) (pn b)

def bits (a : Uint256) : Nat := Limbs.bits (pn a)

-- none is the exception of a division by zero.
def div (a b : Uint256) : Option Uint256 := (Limbs.divide (pn a) (pn b)).map ofPn

@[simp] theorem pn_length (a : Uint256) : (pn a).length = WIDTH := Limbs.ofNat_length ..

theorem value_pn (a : Uint256) : Limbs.value (pn a) = a.toNat := by
  rw [pn, Limbs.value_ofNat]
  exact Nat.mod_eq_of_lt a.isLt

theorem ofPn_eq (words : List (BitVec 32)) (a : Uint256)
    (same : Limbs.value words = a.toNat) : ofPn words = a := by
  rw [ofPn, same, BitVec.ofNat_toNat, BitVec.setWidth_eq]

theorem toNat_succ (a : Uint256) (room : a.toNat + 1 < 2 ^ 256) : (a + 1).toNat = a.toNat + 1 := by
  have one : (1 : Uint256).toNat = 1 := rfl
  rw [BitVec.toNat_add, one, Nat.mod_eq_of_lt room]

theorem toNat_eq_zero (a : Uint256) : a.toNat = 0 ↔ a = 0 := by
  rw [BitVec.toNat_eq]
  rfl

theorem fromUint64_eq (b : BitVec 64) : fromUint64 b = b.setWidth 256 := by
  have bound := b.isLt
  apply ofPn_eq
  have empty : Limbs.value (List.replicate (WIDTH - 2) (0 : BitVec 32)) = 0 := by decide
  have low := Nat.mod_lt b.toNat (Nat.two_pow_pos 32)
  have high : b.toNat / 2 ^ 32 < 2 ^ 32 := Nat.div_lt_of_lt_mul (by omega)
  have parts := Nat.mod_add_div b.toNat (2 ^ 32)
  simp only [Limbs.value, empty, BitVec.toNat_setWidth, BitVec.toNat_ushiftRight,
    Nat.shiftRight_eq_div_pow, Nat.mod_eq_of_lt high, Nat.mul_zero, Nat.add_zero, parts]
  rw [Nat.mod_eq_of_lt (by omega)]

theorem complement_eq (a : Uint256) : complement a = ~~~a := by
  have whole := Limbs.value_complement (pn a)
  rw [value_pn, pn_length] at whole
  apply ofPn_eq
  rw [BitVec.toNat_not]
  have bound := a.isLt
  simp only [WIDTH] at whole
  omega

theorem add_eq (a b : Uint256) : add a b = a + b := by
  apply ofPn_eq
  rw [Limbs.value_add _ _ (by simp), value_pn, value_pn, pn_length, BitVec.toNat_add]
  rfl

theorem mul_eq (a b : Uint256) : mul a b = a * b := by
  apply ofPn_eq
  rw [Limbs.value_mul _ _ (by simp), value_pn, value_pn, pn_length, BitVec.toNat_mul]
  rfl

theorem mulWord_eq (a : Uint256) (b32 : BitVec 32) : mulWord a b32 = a * b32.setWidth 256 := by
  have bound := b32.isLt
  apply ofPn_eq
  rw [Limbs.value_mulWord, value_pn, pn_length, BitVec.toNat_mul, BitVec.toNat_setWidth,
    Nat.mod_eq_of_lt (show b32.toNat < 2 ^ 256 by omega), Nat.mul_comm]
  rfl

theorem shiftLeft_eq (a : Uint256) (shift : Nat) : shiftLeft a shift = a <<< shift := by
  apply ofPn_eq
  rw [Limbs.value_shiftLeft _ _ (by decide), value_pn, pn_length, BitVec.toNat_shiftLeft,
    Nat.shiftLeft_eq]
  rfl

theorem shiftRight_eq (a : Uint256) (shift : Nat) : shiftRight a shift = a >>> shift := by
  apply ofPn_eq
  rw [Limbs.value_shiftRight _ _ (by decide), value_pn, BitVec.toNat_ushiftRight,
    Nat.shiftRight_eq_div_pow]

theorem compareTo_eq (a b : Uint256) : compareTo a b = compare a.toNat b.toNat := by
  rw [compareTo, Limbs.compareTo_eq _ _ (by simp), value_pn, value_pn]

theorem bits_eq (a : Uint256) : bits a = if a = 0 then 0 else Nat.log2 a.toNat + 1 := by
  rw [bits, Limbs.bits_eq, value_pn]
  split
  next zero => simp [zero]
  next nonzero =>
    have positive : a.toNat ≠ 0 := mt (toNat_eq_zero a).mp nonzero
    obtain ⟨reached, below⟩ := (Nat.log2_eq_iff positive).mp rfl
    have upper := Nat.size_le.mpr below
    have lower := Nat.lt_size.mpr reached
    omega

theorem div_eq (a b : Uint256) : div a b = if b = 0 then none else some (a / b) := by
  split
  next zero =>
    have none_left := Limbs.divide_zero (pn a) (pn b) (by rw [value_pn, zero]; rfl)
    rw [div, none_left, Option.map_none]
  next nonzero =>
    have positive : Limbs.value (pn b) ≠ 0 := by
      rw [value_pn]
      exact mt (toNat_eq_zero b).mp nonzero
    obtain ⟨quotient, divided, _, result⟩ :=
      Limbs.divide_eq (pn a) (pn b) (by decide) (by simp) positive
    have whole : ofPn quotient = a / b := by
      apply ofPn_eq
      rw [result, value_pn, value_pn, BitVec.toNat_udiv]
    rw [div, divided, Option.map_some, whole]

end BaseUint

end CryptoYen
