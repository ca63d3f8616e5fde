import Mathlib.Data.Nat.ModEq
import Mathlib.Tactic.Ring
import CryptoYen.Coins.SerializeSize
import CryptoYen.Library.Bytes

set_option autoImplicit false

namespace CryptoYen

open Codec

inductive VarIntType
  | int | unsignedInt | uint64
  deriving DecidableEq, Repr

namespace VarIntType

def sizeof : VarIntType → Nat
  | int | unsignedInt => 4
  | uint64 => 8

def bits (T : VarIntType) : Nat := 8 * T.sizeof

def max : VarIntType → Nat
  | int => 2 ^ 31 - 1
  | unsignedInt => 2 ^ 32 - 1
  | uint64 => 2 ^ 64 - 1

variable (T : VarIntType)

def isLast (n : BitVec T.bits) : Bool :=
  match T with
  | int => n.sle (BitVec.ofNat int.bits 0x7f)
  | _ => n.ule (BitVec.ofNat _ 0x7f)

def shifted (n : BitVec T.bits) : BitVec T.bits :=
  match T with
  | int => n.sshiftRight 7
  | _ => n.ushiftRight 7

def onward (n : BitVec T.bits) : BitVec T.bits := T.shifted n - BitVec.ofNat T.bits 1

-- Every pass of the loop; none when it does not end in so many.
def sizeFrom : Nat → BitVec T.bits → Option Nat
  | 0, _ => none
  | fuel + 1, n => if T.isLast n then some 1 else (sizeFrom fuel (T.onward n)).map (· + 1)

def getSizeOfVarInt (n : BitVec T.bits) : Option Nat := T.sizeFrom (T.bits + 1) n

def digit (n : BitVec T.bits) (len : Nat) : UInt8 :=
  UInt8.ofBitVec ((n &&& BitVec.ofNat T.bits 0x7f).setWidth 8) ||| if len ≠ 0 then 0x80 else 0

-- The loop that fills tmp, the last entry in front, while there is room; none is a write behind it.
def fill : Nat → BitVec T.bits → List UInt8 → Option (List UInt8)
  | 0, _, _ => none
  | room + 1, n, tmp =>
      let tmp := T.digit n tmp.length :: tmp
      if T.isLast n then some tmp else fill room (T.onward n) tmp

def writeVarInt (n : BitVec T.bits) : Option (List UInt8) :=
  T.fill ((T.sizeof * 8 + 6) / 7) n []

def readFrom : BitVec T.bits → List UInt8 → Except String (BitVec T.bits × List UInt8)
  | _, [] => .error streamFailures.endOfData
  | n, chData :: rest =>
      let n := n <<< 7 ||| (chData &&& 0x7f).toBitVec.setWidth T.bits
      if chData &&& 0x80 ≠ 0 then readFrom (n + BitVec.ofNat T.bits 1) rest else .ok (n, rest)

def readVarInt (bytes : List UInt8) : Except String (BitVec T.bits × List UInt8) :=
  T.readFrom (BitVec.ofNat T.bits 0) bytes

end VarIntType

/-- The number that a byte sequence encodes:
(a[len-1] & 0x7F) + sum(i=1..len-1, 128^i*((a[len-i-1] & 0x7F)+1)). -/
def encodedNumber : List UInt8 → Nat
  | [] => 0
  | [last] => last.toNat % 128
  | byte :: next :: rest =>
      128 ^ (rest.length + 1) * (byte.toNat % 128 + 1) + encodedNumber (next :: rest)

def Continues (bytes : List UInt8) : Prop := ∀ byte ∈ bytes, 128 ≤ byte.toNat

theorem encodedNumber_cons (byte next : UInt8) (rest : List UInt8) :
    encodedNumber (byte :: next :: rest) =
      128 ^ (rest.length + 1) * (byte.toNat % 128 + 1) + encodedNumber (next :: rest) := rfl

theorem encodedNumber_concat (first : UInt8) (bytes : List UInt8) (last : UInt8) :
    encodedNumber (first :: bytes ++ [last]) =
      128 * (encodedNumber (first :: bytes) + 1) + last.toNat % 128 := by
  induction bytes generalizing first with
  | nil =>
      rw [List.cons_append, List.nil_append, encodedNumber_cons, encodedNumber, encodedNumber,
        List.length_nil, Nat.zero_add, Nat.pow_one]
  | cons byte rest ih =>
      rw [List.cons_append, List.cons_append, encodedNumber_cons, ← List.cons_append, ih,
        encodedNumber_cons, List.length_append, List.length_singleton, Nat.pow_succ]
      ring

theorem varBytes_encodedNumber (mark : Nat) (bytes : List UInt8) (last : UInt8)
    (continues : Continues bytes) (marked : (mark = 0 ∧ last.toNat < 128) ∨
      (mark = 128 ∧ 128 ≤ last.toNat)) :
    varBytes mark (encodedNumber (bytes ++ [last])) = bytes ++ [last] := by
  generalize size : bytes.length = length
  induction length generalizing bytes last mark with
  | zero =>
      have bound := last.toNat_lt
      rw [List.eq_nil_of_length_eq_zero size, List.nil_append, encodedNumber, varBytes,
        if_pos (Nat.mod_lt _ (by decide)), show last.toNat % 128 + mark = last.toNat by omega,
        UInt8.ofNat_toNat]
  | succ length ih =>
      have bound := last.toNat_lt
      rcases List.eq_nil_or_concat bytes with rfl | ⟨earlier, before, split⟩
      · cases size
      · rw [List.concat_eq_append] at split
        subst split
        have number : encodedNumber (earlier ++ [before] ++ [last]) =
            128 * (encodedNumber (earlier ++ [before]) + 1) + last.toNat % 128 := by
          cases earlier with
          | nil => exact encodedNumber_concat before [] last
          | cons first rest => exact encodedNumber_concat first (rest ++ [before]) last
        have prior := ih 128 earlier before
          (fun byte member => continues byte (List.mem_append_left _ member))
          (Or.inr ⟨rfl, continues before (List.mem_append_right _ (List.mem_singleton_self _))⟩)
          (by rw [List.length_append, List.length_singleton] at size; omega)
        generalize encodedNumber (earlier ++ [before]) = n at number prior
        rw [number, varBytes, if_neg (by omega),
          show (128 * (n + 1) + last.toNat % 128) / 128 - 1 = n by omega,
          show (128 * (n + 1) + last.toNat % 128) % 128 + mark = last.toNat by omega, prior,
          UInt8.ofNat_toNat]

theorem readVarBytes_ok (fail : Failures String) (bits n : Nat) (bytes rest : List UInt8)
    (result : Nat) (read : readVarBytes fail bits n bytes = .ok (result, rest)) :
    ∃ earlier last, bytes = earlier ++ last :: rest ∧ Continues earlier ∧ last.toNat < 128 ∧
      result = (128 ^ (earlier.length + 1) * n + encodedNumber (earlier ++ [last])) % 2 ^ bits := by
  induction bytes generalizing n with
  | nil => cases read
  | cons chData tail ih =>
      rw [readVarBytes] at read
      split at read
      next small =>
        cases read
        refine ⟨[], chData, rfl, fun _ member => absurd member List.not_mem_nil, small, ?_⟩
        rw [List.length_nil, Nat.zero_add, Nat.pow_one, Nat.mul_comm]
        rfl
      next high =>
        obtain ⟨earlier, last, split, continues, small, value⟩ := ih _ read
        refine ⟨chData :: earlier, last, by rw [split, List.cons_append], ?_, small, ?_⟩
        · intro byte member
          rcases List.mem_cons.mp member with rfl | member
          · omega
          · exact continues byte member
        · have whole : encodedNumber (chData :: (earlier ++ [last])) =
              128 ^ (earlier.length + 1) * (chData.toNat % 128 + 1) +
                encodedNumber (earlier ++ [last]) := by
            cases earlier with
            | nil => rfl
            | cons first others =>
                rw [List.cons_append, encodedNumber_cons, List.length_append,
                  List.length_singleton, List.length_cons]
          rw [value, List.cons_append, whole, List.length_cons, Nat.pow_succ 128 (earlier.length + 1)]
          have step : Nat.ModEq (2 ^ bits) (((n * 128 + chData.toNat % 128) % 2 ^ bits + 1) % 2 ^ bits)
              (n * 128 + chData.toNat % 128 + 1) :=
            (Nat.mod_modEq _ _).trans ((Nat.mod_modEq _ _).add_right 1)
          refine ((step.mul_left (128 ^ (earlier.length + 1))).add_right _).trans ?_
          apply congrArg (· % 2 ^ bits)
          ring

section words

variable {w : Nat}

theorem toNat_ofNat_small (k : Nat) (narrow : 8 ≤ w) (small : k < 256) :
    (BitVec.ofNat w k).toNat = k := by
  have power : 2 ^ 8 ≤ 2 ^ w := Nat.pow_le_pow_right (by decide) narrow
  rw [BitVec.toNat_ofNat, Nat.mod_eq_of_lt (by omega)]

theorem ule_last (narrow : 8 ≤ w) (n : BitVec w) :
    n.ule (BitVec.ofNat w 0x7f) = decide (n.toNat < 128) := by
  rw [BitVec.ule, toNat_ofNat_small 0x7f narrow (by decide)]
  exact decide_eq_decide.mpr (by omega)

theorem sle_last (narrow : 9 ≤ w) (n : BitVec w) (positive : 2 * n.toNat < 2 ^ w) :
    n.sle (BitVec.ofNat w 0x7f) = decide (n.toNat < 128) := by
  have power : 2 ^ 9 ≤ 2 ^ w := Nat.pow_le_pow_right (by decide) narrow
  have limit := toNat_ofNat_small (w := w) 0x7f (by omega) (by decide)
  rw [BitVec.sle, BitVec.toInt_eq_toNat_cond, BitVec.toInt_eq_toNat_cond, limit, if_pos positive,
    if_pos (by omega)]
  exact decide_eq_decide.mpr (by omega)

theorem toNat_sub_one (narrow : 8 ≤ w) (n : BitVec w) (positive : 0 < n.toNat) :
    (n - BitVec.ofNat w 1).toNat = n.toNat - 1 := by
  have one := toNat_ofNat_small (w := w) 1 narrow (by decide)
  have bound := n.isLt
  rw [BitVec.toNat_sub, one, show 2 ^ w - 1 + n.toNat = n.toNat - 1 + 2 ^ w by omega,
    Nat.add_mod_right, Nat.mod_eq_of_lt (by omega)]

theorem toNat_shift_in (narrow : 8 ≤ w) (n : BitVec w) (chData : UInt8) :
    (n <<< 7 ||| (chData &&& 0x7f).toBitVec.setWidth w).toNat =
      (n.toNat * 128 + chData.toNat % 128) % 2 ^ w := by
  obtain ⟨k, rfl⟩ : ∃ k, w = k + 8 := ⟨w - 8, by omega⟩
  have power : 2 ^ (k + 8) = 128 * 2 ^ (k + 1) := by
    rw [show k + 8 = 7 + (k + 1) by omega, Nat.pow_add]
  have wide : 256 ≤ 2 ^ (k + 8) := by
    have positive := Nat.two_pow_pos k
    rw [Nat.pow_add]
    omega
  have low : ((chData &&& 0x7f).toBitVec.setWidth (k + 8)).toNat = chData.toNat % 128 := by
    rw [BitVec.toNat_setWidth, UInt8.toNat_toBitVec, Bytes.magnitude, Nat.mod_eq_of_lt (by omega)]
  have high : (n <<< 7).toNat = 2 ^ 7 * (n.toNat % 2 ^ (k + 1)) := by
    rw [BitVec.toNat_shiftLeft, Nat.shiftLeft_eq, Nat.mul_comm, power, Nat.mul_mod_mul_left]
  rw [BitVec.toNat_or, low, high,
    ← Nat.two_pow_add_eq_or_of_lt (show chData.toNat % 128 < 2 ^ 7 by omega), power, Nat.mod_mul,
    show (n.toNat * 128 + chData.toNat % 128) % 128 = chData.toNat % 128 by omega,
    show (n.toNat * 128 + chData.toNat % 128) / 128 = n.toNat by omega, Nat.add_comm]

end words

namespace VarIntType

variable (T : VarIntType)

theorem narrow : 8 ≤ T.bits := by
  cases T <;> decide

theorem max_lt : T.max < 2 ^ T.bits := by
  cases T <;> decide

theorem isLast_eq (n : BitVec T.bits) (small : n.toNat ≤ T.max) :
    T.isLast n = decide (n.toNat < 128) := by
  cases T with
  | int =>
      apply sle_last (by decide)
      have limit : (2 : Nat) ^ int.bits = 2 ^ 32 := rfl
      rw [limit]
      simp only [max] at small
      omega
  | unsignedInt => exact ule_last (by decide) n
  | uint64 => exact ule_last (by decide) n

theorem shifted_toNat (n : BitVec T.bits) (small : n.toNat ≤ T.max) :
    (T.shifted n).toNat = n.toNat / 128 := by
  have unsigned : (n.ushiftRight 7).toNat = n.toNat / 128 := by
    rw [BitVec.ushiftRight_eq, BitVec.toNat_ushiftRight, Nat.shiftRight_eq_div_pow]
  cases T with
  | int =>
      have positive : n.msb = false := by
        rw [BitVec.msb_eq_false_iff_two_mul_lt]
        have limit : (2 : Nat) ^ int.bits = 2 ^ 32 := rfl
        rw [limit]
        simp only [max] at small
        omega
      rw [shifted, BitVec.sshiftRight_eq_of_msb_false positive]
      exact unsigned
  | unsignedInt => exact unsigned
  | uint64 => exact unsigned

theorem onward_toNat (n : BitVec T.bits) (small : n.toNat ≤ T.max) (more : 128 ≤ n.toNat) :
    (T.onward n).toNat = n.toNat / 128 - 1 := by
  have value := T.shifted_toNat n small
  rw [onward, toNat_sub_one T.narrow _ (by omega), value]

theorem digit_eq (n : BitVec T.bits) (len : Nat) :
    T.digit n len = UInt8.ofNat (n.toNat % 128 + if len = 0 then 0 else 128) := by
  have low : (UInt8.ofBitVec ((n &&& BitVec.ofNat T.bits 0x7f).setWidth 8)).toNat =
      n.toNat % 128 := by
    have mask : (0x7f : Nat) = 2 ^ 7 - 1 := rfl
    rw [UInt8.toNat_ofBitVec, BitVec.toNat_setWidth, BitVec.toNat_and,
      toNat_ofNat_small 0x7f T.narrow (by decide), mask, Nat.and_two_pow_sub_one_eq_mod]
    omega
  rw [← UInt8.toNat_inj, UInt8.toNat_ofNat', digit]
  by_cases first : len = 0
  · rw [if_neg (not_not.mpr first), if_pos first, UInt8.or_zero, low]
    omega
  · rw [if_pos first, if_neg first, Bytes.withSign _ (by omega), low]
    omega

theorem fill_eq (room : Nat) (n : BitVec T.bits) (tmp : List UInt8) (small : n.toNat ≤ T.max)
    (fits : n.toNat < varIntLimit room) :
    T.fill room n tmp =
      some (varBytes (if tmp.length = 0 then 0 else 128) n.toNat ++ tmp) := by
  induction room generalizing n tmp with
  | zero => exact absurd fits (Nat.not_lt_zero _)
  | succ room ih =>
      rw [varIntLimit] at fits
      rw [fill, T.isLast_eq n small, T.digit_eq, varBytes]
      by_cases last : n.toNat < 128
      · rw [if_pos (decide_eq_true last), if_pos last, Nat.mod_eq_of_lt last]
        rfl
      · have next := T.onward_toNat n small (by omega)
        rw [if_neg (by simpa using last), if_neg last,
          ih _ _ (by rw [next]; omega) (by rw [next]; omega), next, List.append_assoc]
        rfl

theorem sizeFrom_eq (fuel : Nat) (n : BitVec T.bits) (small : n.toNat ≤ T.max)
    (fits : n.toNat < varIntLimit fuel) :
    T.sizeFrom fuel n = some (CryptoYen.getSizeOfVarInt n.toNat) := by
  induction fuel generalizing n with
  | zero => exact absurd fits (Nat.not_lt_zero _)
  | succ fuel ih =>
      rw [varIntLimit] at fits
      rw [sizeFrom, T.isLast_eq n small, CryptoYen.getSizeOfVarInt]
      by_cases last : n.toNat < 128
      · rw [if_pos (decide_eq_true last), if_pos (by omega)]
      · have next := T.onward_toNat n small (by omega)
        rw [if_neg (by simpa using last), if_neg (by omega),
          ih _ (by rw [next]; omega) (by rw [next]; omega), next]
        rfl

theorem writeVarInt_eq (n : BitVec T.bits) (small : n.toNat ≤ T.max) :
    T.writeVarInt n = some (varBytes 0 n.toNat) := by
  have room : T.max < varIntLimit ((T.sizeof * 8 + 6) / 7) := by
    cases T <;> decide
  rw [writeVarInt, T.fill_eq _ n [] small (by omega), List.append_nil]
  rfl

theorem getSizeOfVarInt_eq (n : BitVec T.bits) (small : n.toNat ≤ T.max) :
    T.getSizeOfVarInt n = some (varBytes 0 n.toNat).length := by
  have room : T.max < varIntLimit (T.bits + 1) := by
    cases T <;> decide
  rw [getSizeOfVarInt, T.sizeFrom_eq _ n small (by omega), varBytes_length]

theorem readFrom_eq (n : BitVec T.bits) (bytes : List UInt8) :
    T.readFrom n bytes =
      (readVarBytes streamFailures T.bits n.toNat bytes).map
        fun read => (BitVec.ofNat T.bits read.1, read.2) := by
  induction bytes generalizing n with
  | nil => rfl
  | cons chData rest ih =>
      have value := toNat_shift_in T.narrow n chData
      have one := toNat_ofNat_small (w := T.bits) 1 T.narrow (by decide)
      rw [readFrom, readVarBytes]
      by_cases high : 128 ≤ chData.toNat
      · rw [if_pos ((Bytes.signBit chData).mpr high), if_neg (by omega), ih, BitVec.toNat_add, one,
          value]
      · rw [if_neg (mt (Bytes.signBit chData).mp high), if_pos (by omega), ← value]
        simp only [Except.map, BitVec.ofNat_toNat, BitVec.setWidth_eq]

/-- The variable-length encoding is one-to-one in every width. -/
theorem varInt_one_to_one :
    (∀ n : BitVec T.bits, n.toNat ≤ T.max → ∃ bytes, T.writeVarInt n = some bytes ∧
        T.getSizeOfVarInt n = some bytes.length ∧
        ∀ rest, T.readVarInt (bytes ++ rest) = .ok (n, rest)) ∧
      (∀ (consumed rest : List UInt8) (n : BitVec T.bits),
        T.readVarInt (consumed ++ rest) = .ok (n, rest) → encodedNumber consumed ≤ T.max →
        n.toNat = encodedNumber consumed ∧ T.writeVarInt n = some consumed) := by
  have zero : (BitVec.ofNat T.bits 0).toNat = 0 := toNat_ofNat_small 0 T.narrow (by decide)
  have limit := T.max_lt
  refine ⟨fun n small => ⟨varBytes 0 n.toNat, T.writeVarInt_eq n small, T.getSizeOfVarInt_eq n small,
    fun rest => ?_⟩, fun consumed rest n read inside => ?_⟩
  · rw [readVarInt, readFrom_eq, zero,
      readVarBytes_varBytes streamFailures T.bits 0 n.toNat (.inl rfl) n.isLt, if_pos rfl]
    simp only [Except.map, BitVec.ofNat_toNat, BitVec.setWidth_eq]
  · rw [readVarInt, readFrom_eq, zero] at read
    cases number : readVarBytes streamFailures T.bits 0 (consumed ++ rest) with
    | error thrown =>
        rw [number] at read
        cases read
    | ok result =>
        rw [number] at read
        obtain ⟨m, left⟩ := result
        simp only [Except.map, Except.ok.injEq, Prod.mk.injEq] at read
        obtain ⟨word, tail⟩ := read
        rw [tail] at number
        obtain ⟨earlier, last, split, continues, small, value⟩ :=
          readVarBytes_ok streamFailures T.bits 0 _ _ _ number
        have bytes : consumed = earlier ++ [last] := by
          have same : consumed ++ rest = (earlier ++ [last]) ++ rest := by
            rw [split, List.append_assoc, List.singleton_append]
          exact List.append_cancel_right same
        rw [Nat.mul_zero, Nat.zero_add, ← bytes, Nat.mod_eq_of_lt (by omega)] at value
        have same : n.toNat = encodedNumber consumed := by
          rw [← word, BitVec.toNat_ofNat, value, Nat.mod_eq_of_lt (by omega)]
        refine ⟨same, ?_⟩
        rw [T.writeVarInt_eq _ (by omega), same, bytes,
          varBytes_encodedNumber 0 earlier last continues (Or.inl ⟨rfl, small⟩)]

example : uint64.writeVarInt (BitVec.ofNat 64 (2 ^ 32)) = some [0x8e, 0xfe, 0xfe, 0xff, 0x00] ∧
    (uint64.writeVarInt (BitVec.ofNat 64 (2 ^ 64 - 1))).map List.length = some 10 := by
  decide +kernel

end VarIntType

end CryptoYen
