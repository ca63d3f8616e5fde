import CryptoYen.Consensus.Compact
import CryptoYen.Library.Truncation

set_option autoImplicit false

namespace CryptoYen

namespace BaseUint

/-- GetCompact with its argument; none is a failed assertion. -/
def getCompactSigned (bn : Uint256) (fNegative : Bool) : Option (BitVec 32) :=
  let nSize := (bits bn + 7) / 8
  let nCompact : BitVec 32 :=
    if nSize ≤ 3 then (getLow64 bn <<< (8 * (3 - nSize))).setWidth 32
    else (getLow64 (shiftRight bn (8 * (nSize - 3)))).setWidth 32
  -- The 0x00800000 bit denotes the sign.
  let collides := nCompact &&& 0x00800000 ≠ 0
  let nSize := if collides then nSize + 1 else nSize
  let nCompact := if collides then nCompact >>> 8 else nCompact
  if nCompact &&& ~~~0x007fffff = 0 ∧ nSize < 256 then
    let nCompact := nCompact ||| BitVec.ofNat 32 nSize <<< 24
    some (nCompact |||
      if fNegative = true ∧ nCompact &&& 0x007fffff ≠ 0 then 0x00800000 else 0)
  else none

end BaseUint

namespace Compact

def exponent (n : Nat) : Nat := if n = 0 then 0 else n.size / 8 + 1

def mantissa (n : Nat) : Nat :=
  if exponent n ≤ 3 then n * 256 ^ (3 - exponent n) else n / 256 ^ (exponent n - 3)

def quantum (size : Nat) : Nat := 8 * (size / 8 + 1 - 3)

theorem quantum_keepsLeading : Truncation.KeepsLeading quantum := by
  intro size positive
  rw [quantum]
  omega

theorem size_eq (n : Nat) (positive : n ≠ 0) : n.size = Nat.log2 n + 1 := by
  obtain ⟨reached, below⟩ := (Nat.log2_eq_iff positive).mp rfl
  have upper := Nat.size_le.mpr below
  have lower := Nat.lt_size.mpr reached
  omega

theorem mantissa_decoded (n : Nat) :
    (if exponent n ≤ 3 then mantissa n / 256 ^ (3 - exponent n)
      else mantissa n * 256 ^ (exponent n - 3)) = Truncation.truncate quantum n := by
  by_cases zero : n = 0
  · subst zero
    decide
  · have bytes : 2 ^ quantum n.size = 256 ^ (exponent n - 3) := by
      rw [quantum, bytes_pow, exponent, if_neg zero]
    rw [Truncation.truncate, bytes, mantissa]
    split
    next small =>
      rw [Nat.mul_div_cancel _ (Nat.pow_pos (by decide)), Nat.sub_eq_zero_of_le small, Nat.pow_zero,
        Nat.div_one, Nat.mul_one]
    next => rfl

theorem mantissa_truncate (n : Nat) :
    exponent (Truncation.truncate quantum n) = exponent n ∧
      mantissa (Truncation.truncate quantum n) = mantissa n := by
  have sizes := Truncation.size_truncate quantum_keepsLeading n
  have same : exponent (Truncation.truncate quantum n) = exponent n := by
    have zero : Truncation.truncate quantum n = 0 ↔ n = 0 := by
      rw [← Nat.size_eq_zero, sizes, Nat.size_eq_zero]
    simp only [exponent, zero, sizes]
  refine ⟨same, ?_⟩
  have decoded := mantissa_decoded n
  rw [mantissa, same]
  split
  next small =>
    rw [if_pos small, mantissa, if_pos small, Nat.mul_div_cancel _ (Nat.pow_pos (by decide))]
      at decoded
    rw [← decoded, mantissa, if_pos small]
  next large =>
    rw [if_neg large] at decoded
    rw [← decoded, Nat.mul_div_cancel _ (Nat.pow_pos (by decide))]

theorem exponent_bounds (n : Nat) (bound : n < 2 ^ 256) : exponent n ≤ 33 := by
  have size := Nat.size_le.mpr bound
  rw [exponent]
  split <;> omega

end Compact

section packing

variable (bn : Uint256)

theorem leadingBytes_sign (nSize : Nat) (positive : 0 < nSize)
    (below : bn.toNat < 256 ^ nSize) :
    (leadingBytes bn nSize).toNat < 2 ^ 23 ↔ bn.toNat.size ≤ 8 * nSize - 1 := by
  rw [Nat.size_le]
  by_cases small : nSize ≤ 3
  · have shift : 2 ^ 23 = 2 ^ (8 * nSize - 1) * 256 ^ (3 - nSize) := by
      rw [← Compact.bytes_pow, ← Nat.pow_add]
      congr 1
      omega
    rw [leadingBytes_small bn nSize small below, shift]
    exact Nat.mul_lt_mul_right (Nat.pow_pos (by decide))
  · have shift : 2 ^ (8 * nSize - 1) = 2 ^ 23 * 256 ^ (nSize - 3) := by
      rw [← Compact.bytes_pow, ← Nat.pow_add]
      congr 1
      omega
    rw [leadingBytes_large bn nSize small below, shift,
      Nat.div_lt_iff_lt_mul (Nat.pow_pos (by decide))]

theorem leadingBytes_mantissa :
    let nSize := (bn.toNat.size + 7) / 8
    (leadingBytes bn nSize).toNat < 2 ^ 24 ∧
      ((leadingBytes bn nSize).toNat < 2 ^ 23 →
        (leadingBytes bn nSize).toNat = Compact.mantissa bn.toNat ∧
          nSize = Compact.exponent bn.toNat) ∧
      (¬ (leadingBytes bn nSize).toNat < 2 ^ 23 →
        (leadingBytes bn nSize).toNat / 256 = Compact.mantissa bn.toNat ∧
          nSize + 1 = Compact.exponent bn.toNat) := by
  intro nSize
  by_cases zero : bn = 0
  · subst zero
    decide
  · have nonzero := mt (BaseUint.toNat_eq_zero bn).mp zero
    obtain ⟨last, bytes, short, reached, below⟩ := Compact.size_bounds bn zero
    rw [← Compact.size_eq bn.toNat nonzero] at bytes
    have count : nSize = last + 1 := bytes
    have upper := (leadingBytes_bounds bn last short reached below).2
    rw [← count] at below upper
    have sign := leadingBytes_sign bn nSize (by omega) below
    have exponent : Compact.exponent bn.toNat = bn.toNat.size / 8 + 1 := if_neg nonzero
    have atLeast := Nat.size_pos.mpr (Nat.pos_of_ne_zero nonzero)
    refine ⟨upper, fun free => ?_, fun collides => ?_⟩
    · have same : nSize = Compact.exponent bn.toNat := by
        rw [sign] at free
        omega
      refine ⟨?_, same⟩
      rw [Compact.mantissa, ← same]
      split
      next small => exact leadingBytes_small bn nSize small below
      next large => exact leadingBytes_large bn nSize large below
    · have same : nSize + 1 = Compact.exponent bn.toNat := by
        rw [sign] at collides
        omega
      refine ⟨?_, same⟩
      rw [Compact.mantissa, ← same]
      by_cases small : nSize ≤ 3
      · rw [leadingBytes_small bn nSize small below]
        split
        next smaller =>
          rw [show 3 - nSize = 3 - (nSize + 1) + 1 by omega, Nat.pow_succ, ← Nat.mul_assoc,
            Nat.mul_div_cancel _ (by decide)]
        next three =>
          rw [show 3 - nSize = 0 by omega, show nSize + 1 - 3 = 1 by omega, Nat.pow_zero,
            Nat.mul_one, Nat.pow_one]
      · rw [leadingBytes_large bn nSize small below, if_neg (by omega), Nat.div_div_eq_div_mul,
          ← Nat.pow_succ, show (nSize - 3).succ = nSize + 1 - 3 by omega]

def packed : BitVec 32 :=
  BitVec.ofNat 32 (Compact.mantissa bn.toNat) |||
    BitVec.ofNat 32 (Compact.exponent bn.toNat) <<< 24

theorem mantissa_lt : Compact.mantissa bn.toNat < 2 ^ 23 := by
  obtain ⟨three, free, collides⟩ := leadingBytes_mantissa bn
  by_cases low : (leadingBytes bn ((bn.toNat.size + 7) / 8)).toNat < 2 ^ 23
  · rw [← (free low).1]
    exact low
  · rw [← (collides low).1]
    omega

theorem mantissa_toNat :
    (BitVec.ofNat 32 (Compact.mantissa bn.toNat)).toNat = Compact.mantissa bn.toNat := by
  have small := mantissa_lt bn
  rw [BitVec.toNat_ofNat]
  omega

theorem packed_parts :
    Compact.word (packed bn) = Compact.mantissa bn.toNat ∧
      Compact.size (packed bn) = Compact.exponent bn.toNat := by
  have small := mantissa_lt bn
  have few := Compact.exponent_bounds bn.toNat bn.isLt
  obtain ⟨word, size⟩ := Compact.decode_pack (BitVec.ofNat 32 (Compact.mantissa bn.toNat))
    (Compact.exponent bn.toNat) (by rw [mantissa_toNat]; exact small) (by omega)
  rw [mantissa_toNat] at word
  exact ⟨word, size⟩

theorem fits_mask (word : BitVec 32) (small : word.toNat < 2 ^ 23) :
    word &&& ~~~0x007fffff = 0 := by
  have kept : word &&& 0x007fffff = word := by
    have mask : (0x007fffff : BitVec 32).toNat = 2 ^ 23 - 1 := by decide
    apply BitVec.eq_of_toNat_eq
    rw [BitVec.toNat_and, mask, Nat.and_two_pow_sub_one_eq_mod, Nat.mod_eq_of_lt small]
  rw [← kept, BitVec.and_assoc, show (0x007fffff : BitVec 32) &&& ~~~0x007fffff = 0 from by decide,
    show word &&& (0 : BitVec 32) = 0 from BitVec.and_zero]

theorem leadingBytes_words (nSize : Nat) :
    (if nSize ≤ 3 then (BaseUint.getLow64 bn <<< (8 * (3 - nSize))).setWidth 32
      else (BaseUint.getLow64 (BaseUint.shiftRight bn (8 * (nSize - 3)))).setWidth 32) =
      leadingBytes bn nSize := by
  have narrow (a : Uint256) : (a.setWidth 64).setWidth 32 = a.setWidth 32 :=
    BitVec.setWidth_setWidth_of_le a (by decide)
  simp only [leadingBytes, BaseUint.getLow64_eq, BaseUint.shiftRight_eq, narrow]

theorem normalized :
    let nSize := (BaseUint.bits bn + 7) / 8
    let leading := leadingBytes bn nSize
    ((leading &&& 0x00800000 = 0 → leading = BitVec.ofNat 32 (Compact.mantissa bn.toNat) ∧
        nSize = Compact.exponent bn.toNat) ∧
      (leading &&& 0x00800000 ≠ 0 → leading >>> 8 = BitVec.ofNat 32 (Compact.mantissa bn.toNat) ∧
        nSize + 1 = Compact.exponent bn.toNat)) := by
  have size : BaseUint.bits bn = bn.toNat.size := by
    rw [BaseUint.bits, Limbs.bits_eq, BaseUint.value_pn]
  obtain ⟨three, free, collides⟩ := leadingBytes_mantissa bn
  rw [size]
  intro nSize leading
  have sign : leading &&& 0x00800000 = 0 ↔ leading.toNat < 2 ^ 23 :=
    Compact.sign_bit leading three
  rw [ne_eq, sign]
  constructor
  · intro low
    obtain ⟨word, exponent⟩ := free low
    refine ⟨BitVec.eq_of_toNat_eq ?_, exponent⟩
    rw [mantissa_toNat]
    exact word
  · intro high
    obtain ⟨word, exponent⟩ := collides high
    refine ⟨BitVec.eq_of_toNat_eq ?_, exponent⟩
    rw [mantissa_toNat, BitVec.toNat_ushiftRight, Nat.shiftRight_eq_div_pow]
    exact word

theorem getCompactSigned_eq (fNegative : Bool) :
    BaseUint.getCompactSigned bn fNegative =
      some (packed bn |||
        if fNegative = true ∧ packed bn &&& 0x007fffff ≠ 0 then 0x00800000 else 0) := by
  obtain ⟨free, collides⟩ := normalized bn
  have few := Compact.exponent_bounds bn.toNat bn.isLt
  have masked := fits_mask (BitVec.ofNat 32 (Compact.mantissa bn.toNat))
    (by rw [mantissa_toNat]; exact mantissa_lt bn)
  unfold BaseUint.getCompactSigned
  dsimp only
  rw [leadingBytes_words]
  by_cases sign : leadingBytes bn ((BaseUint.bits bn + 7) / 8) &&& 0x00800000 = 0
  · obtain ⟨word, exponent⟩ := free sign
    rw [if_neg (not_not.mpr sign), if_neg (not_not.mpr sign), word, exponent,
      if_pos ⟨masked, by omega⟩]
    rfl
  · obtain ⟨word, exponent⟩ := collides sign
    rw [if_pos sign, if_pos sign, word, exponent, if_pos ⟨masked, by omega⟩]
    rfl

theorem getCompact_packed : getCompact bn = packed bn := by
  obtain ⟨free, collides⟩ := normalized bn
  rw [← BaseUint.getCompact_eq, BaseUint.getCompact, leadingBytes_words]
  split
  next sign =>
    obtain ⟨word, exponent⟩ := free sign
    rw [word, exponent, packed]
  next sign =>
    obtain ⟨word, exponent⟩ := collides sign
    rw [word, exponent, packed]

theorem packed_unsigned : packed bn &&& 0x00800000 = 0 := by
  have low : BitVec.ofNat 32 (Compact.mantissa bn.toNat) &&& 0x00800000 = 0 := by
    have small := mantissa_lt bn
    rw [Compact.sign_bit _ (by rw [mantissa_toNat]; omega), mantissa_toNat]
    exact small
  have high (word : BitVec 32) : word <<< 24 &&& 0x00800000 = 0 := by
    have mask : (0x00800000 : BitVec 32).toNat = 2 ^ 23 := by decide
    apply BitVec.eq_of_toNat_eq
    rw [BitVec.toNat_and, mask, Nat.and_two_pow, Nat.testBit_eq_decide_div_mod_eq,
      BitVec.toNat_shiftLeft, Nat.shiftLeft_eq]
    have even : word.toNat * 2 ^ 24 % 2 ^ 32 / 2 ^ 23 % 2 = 0 := by omega
    rw [even]
    rfl
  rw [packed, BitVec.and_comm, BitVec.and_or_distrib_left, BitVec.and_comm, low, BitVec.and_comm,
    high]
  rfl

theorem decoded_packed :
    Compact.decoded (packed bn) = Truncation.truncate Compact.quantum bn.toNat := by
  obtain ⟨word, size⟩ := packed_parts bn
  rw [Compact.decoded, word, size, Compact.mantissa_decoded]

theorem setCompact_packed :
    (setCompact (packed bn)).fNegative = false ∧ (setCompact (packed bn)).fOverflow = false ∧
      (setCompact (packed bn)).bnTarget.toNat =
        Truncation.truncate Compact.quantum bn.toNat := by
  have below := @Truncation.truncate_le Compact.quantum bn.toNat
  have bound := bn.isLt
  refine ⟨?_, ?_, ?_⟩
  · simp only [setCompact, packed_unsigned, bne_self_eq_false, Bool.and_false]
  · rw [← Bool.not_eq_true, Compact.overflow_iff, decoded_packed]
    omega
  · rw [Compact.target_eq, decoded_packed, Nat.mod_eq_of_lt (by omega)]

theorem packed_truncated (back : Uint256)
    (same : back.toNat = Truncation.truncate Compact.quantum bn.toNat) :
    packed back = packed bn := by
  obtain ⟨exponent, mantissa⟩ := Compact.mantissa_truncate bn.toNat
  rw [packed, same, exponent, mantissa, packed]

theorem packed_greatest (other : BitVec 32) (exponent : other >>> 24 = packed bn >>> 24)
    (inside : (setCompact other).fOverflow = false) (le : (setCompact other).bnTarget ≤ bn) :
    (setCompact other).bnTarget ≤ (setCompact (packed bn)).bnTarget := by
  have fits : ¬ 2 ^ 256 ≤ Compact.decoded other := by
    rw [← Compact.overflow_iff, inside]
    exact Bool.false_ne_true
  have target : (setCompact other).bnTarget.toNat = Compact.decoded other := by
    rw [Compact.target_eq, Nat.mod_eq_of_lt (by omega)]
  have size : Compact.size other = Compact.exponent bn.toNat := by
    rw [Compact.size, exponent]
    exact (packed_parts bn).2
  rw [BitVec.le_def, (setCompact_packed bn).2.2]
  rw [BitVec.le_def] at le
  apply Truncation.truncate_greatest bn.toNat _ _ le
  rw [target, Compact.decoded, size]
  by_cases zero : bn.toNat = 0
  · rw [zero, Nat.le_zero, target, Compact.decoded, size] at le
    rw [le]
    exact Nat.dvd_zero _
  · have bytes : 2 ^ Compact.quantum bn.toNat.size =
        256 ^ (Compact.exponent bn.toNat - 3) := by
      rw [Compact.quantum, Compact.bytes_pow, Compact.exponent, if_neg zero]
    rw [bytes]
    split
    next small =>
      rw [Nat.sub_eq_zero_of_le small, Nat.pow_zero]
      exact Nat.one_dvd _
    next => exact Nat.dvd_mul_left _ _

end packing

/-- GetCompact loses the low bits only: SetCompact gives the largest number that the exponent has
room for, in the order of the numbers, and the same compact number encodes it. -/
theorem compact_rounds_down :
    (∀ (n : Uint256) (fNegative : Bool),
        (BaseUint.getCompactSigned n fNegative).isSome = true) ∧
      (∀ (n : Uint256) (c : BitVec 32), BaseUint.getCompactSigned n false = some c →
        (BaseUint.setCompact c).fNegative = false ∧ (BaseUint.setCompact c).fOverflow = false ∧
        (BaseUint.setCompact c).bnTarget ≤ n ∧
        ((c >>> 24).toNat = (BaseUint.bits n + 7) / 8 ∨
          (c >>> 24).toNat = (BaseUint.bits n + 7) / 8 + 1) ∧
        (∀ other : BitVec 32, other >>> 24 = c >>> 24 → (BaseUint.setCompact other).fOverflow = false →
          (BaseUint.setCompact other).bnTarget ≤ n →
          (BaseUint.setCompact other).bnTarget ≤ (BaseUint.setCompact c).bnTarget) ∧
        BaseUint.getCompactSigned (BaseUint.setCompact c).bnTarget false = some c) ∧
      (∀ (m n : Uint256) (cm cn : BitVec 32), m ≤ n →
        BaseUint.getCompactSigned m false = some cm → BaseUint.getCompactSigned n false = some cn →
        (BaseUint.setCompact cm).bnTarget ≤ (BaseUint.setCompact cn).bnTarget) := by
  have unsigned (n : Uint256) : BaseUint.getCompactSigned n false = some (packed n) := by
    rw [getCompactSigned_eq, if_neg (fun both => Bool.false_ne_true both.1)]
    exact congrArg some BitVec.or_zero
  simp only [BaseUint.setCompact_eq]
  refine ⟨fun n fNegative => by rw [getCompactSigned_eq]; rfl, fun n c encoded => ?_,
    fun m n cm cn le first second => ?_⟩
  · rw [unsigned, Option.some_inj] at encoded
    subst encoded
    obtain ⟨positive, inside, back⟩ := setCompact_packed n
    refine ⟨positive, inside, ?_, ?_, packed_greatest n, ?_⟩
    · rw [BitVec.le_def, back]
      exact Truncation.truncate_le n.toNat
    · have size : (packed n >>> 24).toNat = Compact.exponent n.toNat := (packed_parts n).2
      obtain ⟨free, collides⟩ := normalized n
      rw [size]
      by_cases sign : leadingBytes n ((BaseUint.bits n + 7) / 8) &&& 0x00800000 = 0
      · exact Or.inl (free sign).2.symm
      · exact Or.inr (collides sign).2.symm
    · rw [unsigned, packed_truncated n _ back]
  · rw [unsigned, Option.some_inj] at first second
    subst first second
    rw [BitVec.le_def] at le ⊢
    rw [(setCompact_packed m).2.2, (setCompact_packed n).2.2]
    exact Truncation.truncate_mono Compact.quantum_keepsLeading _ _ le

end CryptoYen
