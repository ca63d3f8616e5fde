import Mathlib.Data.Nat.Bitwise
import CryptoYen.Consensus.Work
import CryptoYen.Primitives.BaseUint

set_option autoImplicit false

namespace CryptoYen

namespace Compact

def size (nCompact : BitVec 32) : Nat := (nCompact >>> 24).toNat

def word (nCompact : BitVec 32) : Nat := (nCompact &&& 0x007fffff).toNat

def decoded (nCompact : BitVec 32) : Nat :=
  if size nCompact ≤ 3 then word nCompact / 256 ^ (3 - size nCompact)
  else word nCompact * 256 ^ (size nCompact - 3)

theorem word_lt (nCompact : BitVec 32) : word nCompact < 2 ^ 23 := by
  rw [word, BitVec.toNat_and]
  exact Nat.lt_of_le_of_lt Nat.and_le_right (by decide)

theorem bytes_pow (n : Nat) : 2 ^ (8 * n) = 256 ^ n := by
  rw [Nat.pow_mul]

theorem pow_le_pow (m n : Nat) (le : m ≤ n) : 256 ^ m ≤ 256 ^ n :=
  Nat.pow_le_pow_right (by decide) le

theorem decoded_large (nCompact : BitVec 32) (large : ¬ size nCompact ≤ 3) :
    2 ^ 256 ≤ decoded nCompact ↔
      0 < word nCompact ∧ (34 < size nCompact ∨ (0xff < word nCompact ∧ 33 < size nCompact) ∨
        (0xffff < word nCompact ∧ 32 < size nCompact)) := by
  have bound := word_lt nCompact
  have limit : 2 ^ 256 = 256 ^ 32 := by decide
  rw [decoded, if_neg large, limit]
  generalize word nCompact = nWord at bound ⊢
  generalize size nCompact = nSize at large ⊢
  constructor
  · intro reaches
    by_contra fits
    have below : nWord * 256 ^ (nSize - 3) < 256 ^ 32 := by
      by_cases zero : nWord = 0
      · simp [zero]
      · by_cases byte : nWord ≤ 0xff
        · calc nWord * 256 ^ (nSize - 3) < 256 ^ 1 * 256 ^ (nSize - 3) :=
                Nat.mul_lt_mul_of_pos_right (by omega) (Nat.pow_pos (by decide))
            _ = 256 ^ (1 + (nSize - 3)) := (Nat.pow_add ..).symm
            _ ≤ 256 ^ 32 := pow_le_pow _ _ (by omega)
        · by_cases bytes : nWord ≤ 0xffff
          · calc nWord * 256 ^ (nSize - 3) < 256 ^ 2 * 256 ^ (nSize - 3) :=
                  Nat.mul_lt_mul_of_pos_right (by omega) (Nat.pow_pos (by decide))
              _ = 256 ^ (2 + (nSize - 3)) := (Nat.pow_add ..).symm
              _ ≤ 256 ^ 32 := pow_le_pow _ _ (by omega)
          · calc nWord * 256 ^ (nSize - 3) < 256 ^ 3 * 256 ^ (nSize - 3) :=
                  Nat.mul_lt_mul_of_pos_right (by omega) (Nat.pow_pos (by decide))
              _ = 256 ^ (3 + (nSize - 3)) := (Nat.pow_add ..).symm
              _ ≤ 256 ^ 32 := pow_le_pow _ _ (by omega)
    exact absurd reaches (Nat.not_le.mpr below)
  · intro beyond
    obtain ⟨positive, far | ⟨two, far⟩ | ⟨three, far⟩⟩ := beyond
    · calc 256 ^ 32 ≤ 256 ^ (nSize - 3) := pow_le_pow _ _ (by omega)
        _ ≤ nWord * 256 ^ (nSize - 3) := Nat.le_mul_of_pos_left _ positive
    · calc 256 ^ 32 ≤ 256 ^ (1 + (nSize - 3)) := pow_le_pow _ _ (by omega)
        _ = 256 ^ 1 * 256 ^ (nSize - 3) := Nat.pow_add ..
        _ ≤ nWord * 256 ^ (nSize - 3) := Nat.mul_le_mul_right _ (by omega)
    · calc 256 ^ 32 ≤ 256 ^ (2 + (nSize - 3)) := pow_le_pow _ _ (by omega)
        _ = 256 ^ 2 * 256 ^ (nSize - 3) := Nat.pow_add ..
        _ ≤ nWord * 256 ^ (nSize - 3) := Nat.mul_le_mul_right _ (by omega)

theorem overflow_iff (nCompact : BitVec 32) :
    (setCompact nCompact).fOverflow = true ↔ 2 ^ 256 ≤ decoded nCompact := by
  have bound := word_lt nCompact
  by_cases small : size nCompact ≤ 3
  · have below : decoded nCompact < 2 ^ 256 := by
      rw [decoded, if_pos small]
      have le := Nat.div_le_self (word nCompact) (256 ^ (3 - size nCompact))
      omega
    have sizes : (nCompact >>> 24).toNat ≤ 3 := small
    have last : ¬ 2 ^ 256 ≤ decoded nCompact := by omega
    simp only [setCompact, last, iff_false, Bool.and_eq_true, Bool.or_eq_true, decide_eq_true_eq,
      not_and, not_or]
    intro _
    omega
  · have sizes : ¬ (nCompact >>> 24).toNat ≤ 3 := small
    have nonzero : nCompact &&& 0x007fffff ≠ 0 ↔ 0 < word nCompact := by
      rw [word, Nat.pos_iff_ne_zero, ne_eq, BitVec.toNat_eq]
      rfl
    rw [decoded_large nCompact small, ← nonzero]
    simp only [setCompact, if_neg sizes, Bool.and_eq_true, Bool.or_eq_true, decide_eq_true_eq,
      bne_iff_ne, or_assoc]
    rfl

theorem target_eq (nCompact : BitVec 32) :
    (setCompact nCompact).bnTarget.toNat = decoded nCompact % 2 ^ 256 := by
  have bound := word_lt nCompact
  by_cases small : size nCompact ≤ 3
  · have sizes : (nCompact >>> 24).toNat ≤ 3 := small
    have le := Nat.div_le_self (word nCompact) (256 ^ (3 - size nCompact))
    simp only [setCompact, if_pos sizes, decoded, if_pos small]
    rw [BitVec.toNat_setWidth, BitVec.toNat_ushiftRight, Nat.shiftRight_eq_div_pow, bytes_pow]
    rfl
  · have sizes : ¬ (nCompact >>> 24).toNat ≤ 3 := small
    simp only [setCompact, if_neg sizes, decoded, if_neg small]
    rw [BitVec.toNat_shiftLeft, BitVec.toNat_setWidth, Nat.shiftLeft_eq, bytes_pow, Nat.mod_mul_mod]
    rfl

theorem target_succ_lt (nCompact : BitVec 32) :
    (setCompact nCompact).bnTarget.toNat + 1 < 2 ^ 256 := by
  have bound := word_lt nCompact
  rw [target_eq, decoded]
  split
  next =>
    have le := Nat.div_le_self (word nCompact) (256 ^ (3 - size nCompact))
    have below : word nCompact / 256 ^ (3 - size nCompact) < 2 ^ 256 := by omega
    rw [Nat.mod_eq_of_lt below]
    omega
  next large =>
    obtain ⟨k, above⟩ : ∃ k, size nCompact - 3 = k + 1 := ⟨size nCompact - 4, by omega⟩
    have aligned : word nCompact * 256 ^ (size nCompact - 3) % 2 ^ 256 % 256 = 0 := by
      rw [Nat.mod_mod_of_dvd _ (by decide), above, Nat.pow_succ, ← Nat.mul_assoc,
        Nat.mul_mod_left]
    have below := Nat.mod_lt (word nCompact * 256 ^ (size nCompact - 3)) (Nat.two_pow_pos 256)
    omega

theorem size_bounds (bn : Uint256) (nonzero : bn ≠ 0) :
    ∃ nSize, (Nat.log2 bn.toNat + 1 + 7) / 8 = nSize + 1 ∧ nSize < 32 ∧
      256 ^ nSize ≤ bn.toNat ∧ bn.toNat < 256 ^ (nSize + 1) := by
  have bound := bn.isLt
  obtain ⟨reached, below⟩ := (Nat.log2_eq_iff (mt (BaseUint.toNat_eq_zero bn).mp nonzero)).mp rfl
  have short : Nat.log2 bn.toNat < 256 :=
    (Nat.pow_lt_pow_iff_right (by decide)).mp (Nat.lt_of_le_of_lt reached bound)
  refine ⟨Nat.log2 bn.toNat / 8, by omega, by omega, ?_, ?_⟩
  · calc 256 ^ (Nat.log2 bn.toNat / 8) = 2 ^ (8 * (Nat.log2 bn.toNat / 8)) := (bytes_pow _).symm
      _ ≤ 2 ^ Nat.log2 bn.toNat := Nat.pow_le_pow_right (by decide) (by omega)
      _ ≤ bn.toNat := reached
  · calc bn.toNat < 2 ^ (Nat.log2 bn.toNat + 1) := below
      _ ≤ 2 ^ (8 * (Nat.log2 bn.toNat / 8 + 1)) := Nat.pow_le_pow_right (by decide) (by omega)
      _ = 256 ^ (Nat.log2 bn.toNat / 8 + 1) := bytes_pow _

theorem decode_pack (word_bits : BitVec 32) (nSize : Nat) (small : word_bits.toNat < 2 ^ 23)
    (short : nSize < 256) :
    word (word_bits ||| BitVec.ofNat 32 nSize <<< 24) = word_bits.toNat ∧
      size (word_bits ||| BitVec.ofNat 32 nSize <<< 24) = nSize := by
  have packed : (word_bits ||| BitVec.ofNat 32 nSize <<< 24).toNat =
      2 ^ 24 * nSize + word_bits.toNat := by
    have shifted : (BitVec.ofNat 32 nSize <<< 24).toNat = 2 ^ 24 * nSize := by
      rw [BitVec.toNat_shiftLeft, BitVec.toNat_ofNat, Nat.shiftLeft_eq]
      omega
    rw [BitVec.toNat_or, shifted, Nat.or_comm,
      Nat.two_pow_add_eq_or_of_lt (show word_bits.toNat < 2 ^ 24 by omega)]
  constructor
  · have mask : (0x007fffff : BitVec 32).toNat = 2 ^ 23 - 1 := by decide
    rw [word, BitVec.toNat_and, packed, mask, Nat.and_two_pow_sub_one_eq_mod]
    omega
  · rw [size, BitVec.toNat_ushiftRight, packed, Nat.shiftRight_eq_div_pow]
    omega

theorem sign_bit (word_bits : BitVec 32) (three : word_bits.toNat < 2 ^ 24) :
    word_bits &&& 0x00800000 = 0 ↔ word_bits.toNat < 2 ^ 23 := by
  have mask : (0x00800000 : BitVec 32).toNat = 2 ^ 23 := by decide
  rw [BitVec.toNat_eq, BitVec.toNat_and, mask, Nat.and_two_pow, Nat.testBit_eq_decide_div_mod_eq]
  have zero : (0 : BitVec 32).toNat = 0 := rfl
  rw [zero]
  by_cases low : word_bits.toNat < 2 ^ 23
  · have digit : word_bits.toNat / 2 ^ 23 = 0 := Nat.div_eq_of_lt low
    rw [digit]
    exact iff_of_true (by decide) low
  · have digit : word_bits.toNat / 2 ^ 23 = 1 := by omega
    rw [digit]
    exact iff_of_false (by decide) low

end Compact

namespace BaseUint

def setCompact (nCompact : BitVec 32) : CompactTarget :=
  let nSize := (nCompact >>> 24).toNat
  let nWord := nCompact &&& 0x007fffff
  let shifted := if nSize ≤ 3 then nWord >>> (8 * (3 - nSize)) else nWord
  { bnTarget :=
      if nSize ≤ 3 then fromUint64 (shifted.setWidth 64)
      else shiftLeft (fromUint64 (nWord.setWidth 64)) (8 * (nSize - 3))
    fNegative := shifted != 0 && nCompact &&& 0x00800000 != 0
    fOverflow := shifted != 0 &&
      (34 < nSize || (0xff < shifted && 33 < nSize) || (0xffff < shifted && 32 < nSize)) }

theorem widen (b : BitVec 32) : (b.setWidth 64).setWidth 256 = b.setWidth 256 :=
  BitVec.setWidth_setWidth (by decide)

theorem setCompact_eq (nCompact : BitVec 32) :
    setCompact nCompact = CryptoYen.setCompact nCompact := by
  simp only [setCompact, CryptoYen.setCompact, fromUint64_eq, shiftLeft_eq, widen]

theorem one_eq : fromUint64 1 = 1 := by
  rw [fromUint64_eq]
  rfl

def getLow64 (a : Uint256) : BitVec 64 :=
  ((pn a).getD 0 0).setWidth 64 ||| ((pn a).getD 1 0).setWidth 64 <<< 32

def getCompact (bn : Uint256) : BitVec 32 :=
  let nSize := (bits bn + 7) / 8
  let nCompact : BitVec 32 :=
    if nSize ≤ 3 then (getLow64 bn <<< (8 * (3 - nSize))).setWidth 32
    else (getLow64 (shiftRight bn (8 * (nSize - 3)))).setWidth 32
  if nCompact &&& 0x00800000 = 0 then nCompact ||| (BitVec.ofNat 32 nSize <<< 24)
  else (nCompact >>> 8) ||| (BitVec.ofNat 32 (nSize + 1) <<< 24)

theorem getLow64_eq (a : Uint256) : getLow64 a = a.setWidth 64 := by
  apply BitVec.eq_of_toNat_eq
  have first : (pn a).getD 0 0 = BitVec.ofNat 32 a.toNat := by
    rw [pn, Limbs.getElem_ofNat _ _ _ (by decide)]
    simp
  have second : (pn a).getD 1 0 = BitVec.ofNat 32 (a.toNat / 2 ^ 32) := by
    rw [pn, Limbs.getElem_ofNat _ _ _ (by decide)]
  have low := Nat.mod_lt a.toNat (Nat.two_pow_pos 32)
  have shifted : ((BitVec.ofNat 32 (a.toNat / 2 ^ 32)).setWidth 64 <<< 32).toNat =
      2 ^ 32 * (a.toNat / 2 ^ 32 % 2 ^ 32) := by
    rw [BitVec.toNat_shiftLeft, BitVec.toNat_setWidth, BitVec.toNat_ofNat, Nat.shiftLeft_eq]
    omega
  have lowest : ((BitVec.ofNat 32 a.toNat).setWidth 64).toNat = a.toNat % 2 ^ 32 := by
    rw [BitVec.toNat_setWidth, BitVec.toNat_ofNat]
    omega
  rw [getLow64, first, second, BitVec.toNat_or, shifted, lowest, Nat.or_comm,
    ← Nat.two_pow_add_eq_or_of_lt low, BitVec.toNat_setWidth]
  omega

theorem getCompact_eq (bn : Uint256) : getCompact bn = CryptoYen.getCompact bn := by
  have narrow (a : Uint256) : (a.setWidth 64).setWidth 32 = a.setWidth 32 :=
    BitVec.setWidth_setWidth_of_le a (by decide)
  simp only [getCompact, CryptoYen.getCompact, bits_eq, getLow64_eq, shiftRight_eq, narrow]

theorem mulUint32_eq (bn : Uint256) (factor : Int) :
    mulUint32 bn factor = mulWord bn (BitVec.ofInt 32 factor) := by
  rw [mulWord_eq, mulUint32]

theorem divUint64_eq (bn : Uint256) (divisor : Int) :
    div bn (fromUint64 (BitVec.ofInt 64 divisor)) =
      if (BitVec.ofInt 64 divisor).setWidth 256 = (0 : Uint256) then none
      else some (divUint64 bn divisor) := by
  rw [div_eq, fromUint64_eq, divUint64]

end BaseUint

section encoding

variable (bn : Uint256) (nSize : Nat)

def leadingBytes : BitVec 32 :=
  if nSize ≤ 3 then (bn.setWidth 64 <<< (8 * (3 - nSize))).setWidth 32
  else (bn >>> (8 * (nSize - 3))).setWidth 32

theorem leadingBytes_small (small : nSize ≤ 3) (below : bn.toNat < 256 ^ nSize) :
    (leadingBytes bn nSize).toNat = bn.toNat * 256 ^ (3 - nSize) := by
  have fits : bn.toNat * 256 ^ (3 - nSize) < 256 ^ 3 := by
    calc bn.toNat * 256 ^ (3 - nSize) < 256 ^ nSize * 256 ^ (3 - nSize) :=
          Nat.mul_lt_mul_of_pos_right below (Nat.pow_pos (by decide))
      _ = 256 ^ 3 := by rw [← Nat.pow_add, Nat.add_sub_cancel' small]
  have le : bn.toNat ≤ bn.toNat * 256 ^ (3 - nSize) :=
    Nat.le_mul_of_pos_right _ (Nat.pow_pos (by decide))
  rw [leadingBytes, if_pos small, BitVec.toNat_setWidth, BitVec.toNat_shiftLeft,
    BitVec.toNat_setWidth, Nat.shiftLeft_eq, Compact.bytes_pow,
    Nat.mod_eq_of_lt (show bn.toNat < 2 ^ 64 by omega)]
  omega

theorem leadingBytes_large (large : ¬ nSize ≤ 3) (below : bn.toNat < 256 ^ nSize) :
    (leadingBytes bn nSize).toNat = bn.toNat / 256 ^ (nSize - 3) := by
  have fits : bn.toNat / 256 ^ (nSize - 3) < 256 ^ 3 := by
    apply Nat.div_lt_of_lt_mul
    rwa [← Nat.pow_add, Nat.sub_add_cancel (by omega)]
  rw [leadingBytes, if_neg large, BitVec.toNat_setWidth, BitVec.toNat_ushiftRight,
    Nat.shiftRight_eq_div_pow, Compact.bytes_pow]
  exact Nat.mod_eq_of_lt (Nat.lt_of_lt_of_le fits (by decide))

theorem leadingBytes_bounds (last : nSize < 32) (reached : 256 ^ nSize ≤ bn.toNat)
    (below : bn.toNat < 256 ^ (nSize + 1)) :
    256 ^ 2 ≤ (leadingBytes bn (nSize + 1)).toNat ∧
      (leadingBytes bn (nSize + 1)).toNat < 256 ^ 3 := by
  by_cases small : nSize + 1 ≤ 3
  · rw [leadingBytes_small bn (nSize + 1) small below]
    constructor
    · calc 256 ^ 2 = 256 ^ nSize * 256 ^ (3 - (nSize + 1)) := by
            rw [← Nat.pow_add, show nSize + (3 - (nSize + 1)) = 2 by omega]
        _ ≤ bn.toNat * 256 ^ (3 - (nSize + 1)) := Nat.mul_le_mul_right _ reached
    · calc bn.toNat * 256 ^ (3 - (nSize + 1)) < 256 ^ (nSize + 1) * 256 ^ (3 - (nSize + 1)) :=
            Nat.mul_lt_mul_of_pos_right below (Nat.pow_pos (by decide))
        _ = 256 ^ 3 := by rw [← Nat.pow_add, Nat.add_sub_cancel' small]
  · rw [leadingBytes_large bn (nSize + 1) small below]
    constructor
    · rw [Nat.le_div_iff_mul_le (Nat.pow_pos (by decide)), ← Nat.pow_add,
        show 2 + (nSize + 1 - 3) = nSize by omega]
      exact reached
    · apply Nat.div_lt_of_lt_mul
      rwa [← Nat.pow_add, Nat.sub_add_cancel (by omega)]

end encoding

theorem Compact.mul_pow_lt (word k e n : Nat) (below : word < 256 ^ k) (fits : k + e ≤ n) :
    word * 256 ^ e < 256 ^ n := by
  calc word * 256 ^ e
      < 256 ^ k * 256 ^ e := Nat.mul_lt_mul_of_pos_right below (Nat.pow_pos (by decide))
    _ = 256 ^ (k + e) := (Nat.pow_add 256 k e).symm
    _ ≤ 256 ^ n := Compact.pow_le_pow _ _ fits

theorem getCompact_nonzero (bn : Uint256) (nonzero : bn ≠ 0) :
    (setCompact (getCompact bn)).bnTarget ≠ 0 := by
  obtain ⟨nSize, bytes, last, reached, below⟩ := Compact.size_bounds bn nonzero
  obtain ⟨lower, upper⟩ := leadingBytes_bounds bn nSize last reached below
  have encoded : getCompact bn =
      if leadingBytes bn (nSize + 1) &&& 0x00800000 = 0 then
        leadingBytes bn (nSize + 1) ||| (BitVec.ofNat 32 (nSize + 1) <<< 24)
      else (leadingBytes bn (nSize + 1) >>> 8) ||| (BitVec.ofNat 32 (nSize + 1 + 1) <<< 24) := by
    simp only [getCompact, leadingBytes, if_neg nonzero, bytes]
    rfl
  have limit : 2 ^ 256 = 256 ^ 32 := by decide
  suffices inside : 0 < Compact.decoded (getCompact bn) ∧
      Compact.decoded (getCompact bn) < 256 ^ 32 by
    rw [ne_eq, ← BaseUint.toNat_eq_zero, Compact.target_eq, limit, Nat.mod_eq_of_lt inside.2]
    omega
  rw [encoded]
  split
  next unsigned =>
    rw [Compact.sign_bit _ upper] at unsigned
    obtain ⟨isWord, isSize⟩ := Compact.decode_pack _ (nSize + 1) unsigned (by omega)
    rw [Compact.decoded, isWord, isSize]
    split
    next small =>
      have positive := mt (BaseUint.toNat_eq_zero bn).mp nonzero
      rw [leadingBytes_small bn (nSize + 1) small below,
        Nat.mul_div_cancel _ (Nat.pow_pos (by decide))]
      omega
    next large =>
      constructor
      · exact Nat.mul_pos (by omega) (Nat.pow_pos (by decide))
      · exact Compact.mul_pow_lt _ 3 _ 32 upper (by omega)
  next signed =>
    rw [Compact.sign_bit _ upper] at signed
    have shifted : (leadingBytes bn (nSize + 1) >>> 8).toNat =
        (leadingBytes bn (nSize + 1)).toNat / 2 ^ 8 := by
      rw [BitVec.toNat_ushiftRight, Nat.shiftRight_eq_div_pow]
    generalize leadingBytes bn (nSize + 1) = leading at *
    obtain ⟨isWord, isSize⟩ := Compact.decode_pack (leading >>> 8) (nSize + 1 + 1)
      (by rw [shifted]; omega) (by omega)
    rw [Compact.decoded, isWord, isSize, shifted]
    split
    next small =>
      have unit : 256 ^ (3 - (nSize + 1 + 1)) ≤ 256 ^ 1 := Compact.pow_le_pow _ _ (by omega)
      have le := Nat.div_le_self (leading.toNat / 2 ^ 8) (256 ^ (3 - (nSize + 1 + 1)))
      exact ⟨Nat.div_pos (by omega) (Nat.pow_pos (by decide)), by omega⟩
    next large =>
      constructor
      · exact Nat.mul_pos (by omega) (Nat.pow_pos (by decide))
      · exact Compact.mul_pow_lt _ 2 _ 32 (by omega) (by omega)

end CryptoYen
