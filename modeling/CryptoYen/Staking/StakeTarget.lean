import CryptoYen.Consensus.CheckTransaction
import CryptoYen.Index.BlockProof
import CryptoYen.Staking.Kernel

set_option autoImplicit false

namespace CryptoYen

namespace BaseUint

-- stakeTargetHit over the words of base_uint; dividing by 100 never throws.
def stakeTargetHit (hashProofOfStake : Uint256) (nValueIn : Int) (bnTargetPerCoinDay : Uint256) :
    Option Bool := do
  let bnCoinDayWeight ← div (fromUint64 (BitVec.ofInt 64 nValueIn)) (fromUint64 100)
  some (compareTo hashProofOfStake (mul bnCoinDayWeight bnTargetPerCoinDay) = .lt)

theorem stakeTargetHit_eq (hashProofOfStake : Uint256) (nValueIn : Int)
    (bnTargetPerCoinDay : Uint256) :
    stakeTargetHit hashProofOfStake nValueIn bnTargetPerCoinDay =
      some (CryptoYen.stakeTargetHit hashProofOfStake nValueIn bnTargetPerCoinDay) := by
  have hundred : (100 : BitVec 64).setWidth 256 = 100 := by decide
  have nonzero : (100 : Uint256) ≠ 0 := by decide
  simp only [stakeTargetHit, CryptoYen.stakeTargetHit, fromUint64_eq, hundred, div_eq,
    if_neg nonzero, mul_eq, compareTo_eq, Nat.compare_eq_lt, Option.bind_eq_bind, Option.bind_some,
    BitVec.lt_def]

end BaseUint

theorem stakeTargetHit_iff (hashProofOfStake bnTarget : Uint256) (nValueIn : Nat)
    (amount : nValueIn < 2 ^ 64) :
    BaseUint.stakeTargetHit hashProofOfStake nValueIn bnTarget = some true ↔
      hashProofOfStake.toNat < nValueIn / 100 * bnTarget.toNat % 2 ^ 256 := by
  have value : (BitVec.ofInt 64 (nValueIn : Int)).toNat = nValueIn := by
    rw [BitVec.ofInt_natCast, BitVec.toNat_ofNat, Nat.mod_eq_of_lt amount]
  have weight : ((BitVec.ofInt 64 (nValueIn : Int)).setWidth 256 / (100 : Uint256)).toNat =
      nValueIn / 100 := by
    have hundred : (100 : Uint256).toNat = 100 := rfl
    rw [BitVec.toNat_udiv, BitVec.toNat_setWidth, value, hundred, Nat.mod_eq_of_lt (by omega)]
  rw [BaseUint.stakeTargetHit_eq, Option.some.injEq, stakeTargetHit, decide_eq_true_eq,
    BitVec.lt_def, BitVec.toNat_mul, weight]

def StakeMonotone (params : CChainParams) (bnTarget : Uint256) : Prop :=
  ∀ (hashProofOfStake : Uint256) (less more : Int), moneyRange params less = true →
    moneyRange params more = true → less ≤ more →
    BaseUint.stakeTargetHit hashProofOfStake less bnTarget = some true →
    BaseUint.stakeTargetHit hashProofOfStake more bnTarget = some true

theorem stakeMonotone_of_fits (params : CChainParams) (bnTarget : Uint256)
    (amounts : params.nMaxMoneyOut ≤ maxInt64)
    (fits : params.nMaxMoneyOut.toNat / 100 * bnTarget.toNat < 2 ^ 256) :
    StakeMonotone params bnTarget := by
  intro hashProofOfStake less more lessRange moreRange le hit
  simp only [moneyRange, Bool.and_eq_true, decide_eq_true_eq, maxInt64] at lessRange moreRange amounts
  obtain ⟨less, rfl⟩ := Int.eq_ofNat_of_zero_le lessRange.1
  obtain ⟨more, rfl⟩ := Int.eq_ofNat_of_zero_le moreRange.1
  rw [stakeTargetHit_iff _ _ _ (by omega)] at hit ⊢
  have weights : less / 100 ≤ more / 100 := Nat.div_le_div_right (by omega)
  have limit : more / 100 ≤ params.nMaxMoneyOut.toNat / 100 := Nat.div_le_div_right (by omega)
  have products := Nat.mul_le_mul_right bnTarget.toNat weights
  have room := Nat.mul_le_mul_right bnTarget.toNat limit
  rw [Nat.mod_eq_of_lt (by omega)] at hit ⊢
  omega

-- The last weight whose product fits hits with the hash that the next weight's product wraps to.
theorem stakeMonotone_fits (params : CChainParams) (bnTarget : Uint256)
    (amounts : params.nMaxMoneyOut ≤ maxInt64) (monotone : StakeMonotone params bnTarget) :
    params.nMaxMoneyOut.toNat / 100 * bnTarget.toNat < 2 ^ 256 := by
  by_contra wraps
  have bound := bnTarget.isLt
  have positive : 0 < bnTarget.toNat := by
    rw [Nat.pos_iff_ne_zero]
    intro zero
    simp [zero] at wraps
  obtain ⟨last, isLast⟩ : ∃ last, last = (2 ^ 256 - 1) / bnTarget.toNat := ⟨_, rfl⟩
  have below : last * bnTarget.toNat ≤ 2 ^ 256 - 1 := by
    rw [isLast]
    exact Nat.div_mul_le_self _ _
  have beyond : 2 ^ 256 - 1 < (last + 1) * bnTarget.toNat := by
    rw [isLast, Nat.mul_comm]
    exact Nat.lt_mul_div_succ _ positive
  have within : last + 1 ≤ params.nMaxMoneyOut.toNat / 100 := by
    by_contra less
    have product := Nat.mul_le_mul_right bnTarget.toNat
      (show params.nMaxMoneyOut.toNat / 100 ≤ last by omega)
    omega
  rw [Nat.add_mul, Nat.one_mul] at beyond
  simp only [maxInt64] at amounts
  have hash_lt : last * bnTarget.toNat + bnTarget.toNat - 2 ^ 256 < 2 ^ 256 := by omega
  have hit := monotone (BitVec.ofNat 256 (last * bnTarget.toNat + bnTarget.toNat - 2 ^ 256))
    ((last * 100 : Nat) : Int) (((last + 1) * 100 : Nat) : Int)
    (by simp only [moneyRange, Bool.and_eq_true, decide_eq_true_eq]; omega)
    (by simp only [moneyRange, Bool.and_eq_true, decide_eq_true_eq]; omega) (by omega)
  rw [stakeTargetHit_iff _ _ _ (by omega), stakeTargetHit_iff _ _ _ (by omega),
    Nat.mul_div_cancel _ (by decide), Nat.mul_div_cancel _ (by decide), BitVec.toNat_ofNat,
    Nat.mod_eq_of_lt hash_lt, Nat.add_mul, Nat.one_mul] at hit
  have wrapped : (last * bnTarget.toNat + bnTarget.toNat) % 2 ^ 256 =
      last * bnTarget.toNat + bnTarget.toNat - 2 ^ 256 := by omega
  rw [Nat.mod_eq_of_lt (by omega), wrapped] at hit
  exact absurd (hit (by omega)) (Nat.lt_irrefl _)

/-- A larger coin never hits less exactly when the largest coin's product fits the width. -/
theorem stakeTargetHit_monotone_iff (params : CChainParams)
    (amounts : params.nMaxMoneyOut ≤ maxInt64) (nBits : BitVec 32) :
    StakeMonotone params (setCompact nBits).bnTarget ↔
      params.nMaxMoneyOut.toNat / 100 * (setCompact nBits).bnTarget.toNat < 2 ^ 256 :=
  ⟨stakeMonotone_fits params _ amounts, stakeMonotone_of_fits params _ amounts⟩

theorem stakeTargetHit_monotone_main :
    StakeMonotone CChainParams.mainParams (setCompact 0x1a0fffff).bnTarget :=
  (stakeTargetHit_monotone_iff CChainParams.mainParams (by decide) 0x1a0fffff).mpr
    (by decide +kernel)

theorem stakeTargetHit_lost_by_more :
    ValidTarget 0x1e0fffff ∧
      (setCompact 0x1e0fffff).bnTarget ≤ CChainParams.mainParams.bnProofOfWorkLimit ∧
      BaseUint.stakeTargetHit 0xffffe000000000000000000000000000000000000000000000000000000
        104857700 (setCompact 0x1e0fffff).bnTarget = some true ∧
      BaseUint.stakeTargetHit 0xffffe000000000000000000000000000000000000000000000000000000
        104857800 (setCompact 0x1e0fffff).bnTarget = some false ∧
      ¬ StakeMonotone CChainParams.mainParams (setCompact 0x1e0fffff).bnTarget := by
  have less : BaseUint.stakeTargetHit 0xffffe000000000000000000000000000000000000000000000000000000
      104857700 (setCompact 0x1e0fffff).bnTarget = some true := by
    rw [BaseUint.stakeTargetHit_eq]
    decide +kernel
  have more : BaseUint.stakeTargetHit 0xffffe000000000000000000000000000000000000000000000000000000
      104857800 (setCompact 0x1e0fffff).bnTarget = some false := by
    rw [BaseUint.stakeTargetHit_eq]
    decide +kernel
  refine ⟨by decide +kernel, by decide +kernel, less, more, fun monotone => ?_⟩
  have hit := monotone _ 104857700 104857800 (by decide) (by decide) (by decide) less
  rw [more] at hit
  exact Bool.noConfusion (Option.some.inj hit)

end CryptoYen
