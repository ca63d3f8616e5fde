import CryptoYen.Index.BlockProof
import CryptoYen.Staking.Modifier

set_option autoImplicit false

namespace CryptoYen

/-- GetBlockTrust; none is the exception of a division by zero. -/
def ChainBlock.getBlockTrust (pindex : ChainBlock) : Option Uint256 :=
  let bnTarget := (BaseUint.setCompact pindex.nBits).bnTarget
  let divisor := BaseUint.add bnTarget (BaseUint.fromUint64 1)
  if (BaseUint.compareTo bnTarget (BaseUint.fromUint64 0)).isLE then some 0
  else if pindex.fProofOfStake then
    BaseUint.div (BaseUint.shiftLeft (BaseUint.fromUint64 1) 256) divisor
  else do
    let bnPoWTrust ←
      BaseUint.div (BaseUint.shiftRight (BaseUint.complement (BaseUint.fromUint64 0)) 20) divisor
    some
      (if BaseUint.compareTo bnPoWTrust (BaseUint.fromUint64 1) = .gt then bnPoWTrust
        else BaseUint.fromUint64 1)

-- AddToBlockIndex adds the trust up from the first block on that has a parent.
def bnChainTrust : List ChainBlock → Option Uint256
  | pindex :: pprev :: older => do
      let before ← bnChainTrust (pprev :: older)
      let trust ← pindex.getBlockTrust
      some (BaseUint.add before trust)
  | _ => some 0

def workTrust (pindex : ChainBlock) : Nat :=
  max 1 ((2 ^ 236 - 1) / ((setCompact pindex.nBits).bnTarget.toNat + 1))

theorem zero_eq : BaseUint.fromUint64 0 = 0 := by
  rw [BaseUint.fromUint64_eq]
  rfl

theorem getBlockTrust_stake (pindex : ChainBlock) (stake : pindex.fProofOfStake = true) :
    pindex.getBlockTrust = some 0 := by
  have bound := Compact.target_succ_lt pindex.nBits
  have nonzero : (setCompact pindex.nBits).bnTarget + 1 ≠ 0 := by
    rw [ne_eq, ← BaseUint.toNat_eq_zero, BaseUint.toNat_succ _ bound]
    exact Nat.succ_ne_zero _
  have shifted : (1 : Uint256) <<< 256 = 0 := by decide
  simp only [ChainBlock.getBlockTrust, stake, ↓reduceIte, BaseUint.setCompact_eq,
    BaseUint.shiftLeft_eq, BaseUint.one_eq, BaseUint.add_eq, BaseUint.div_eq, shifted,
    if_neg nonzero]
  split
  next => rfl
  next => exact congrArg some BitVec.zero_udiv

theorem getBlockTrust_work (pindex : ChainBlock) (work : pindex.fProofOfStake = false)
    (target : (setCompact pindex.nBits).bnTarget ≠ 0) :
    ∃ trust, pindex.getBlockTrust = some trust ∧ trust.toNat = workTrust pindex := by
  have bound := Compact.target_succ_lt pindex.nBits
  have positive := mt (BaseUint.toNat_eq_zero _).mp target
  have nonzero : (setCompact pindex.nBits).bnTarget + 1 ≠ 0 := by
    rw [ne_eq, ← BaseUint.toNat_eq_zero, BaseUint.toNat_succ _ bound]
    exact Nat.succ_ne_zero _
  have some_target : ¬ (compare (setCompact pindex.nBits).bnTarget.toNat
      (0 : Uint256).toNat).isLE = true := by
    have zero : (0 : Uint256).toNat = 0 := rfl
    rw [zero, Nat.isLE_compare]
    omega
  have shifted : (~~~(0 : Uint256) >>> 20).toNat = 2 ^ 236 - 1 := by decide
  have one : (1 : Uint256).toNat = 1 := rfl
  simp only [ChainBlock.getBlockTrust, work, Bool.false_eq_true, ↓reduceIte,
    BaseUint.setCompact_eq, BaseUint.compareTo_eq, zero_eq, some_target, BaseUint.one_eq,
    BaseUint.add_eq, BaseUint.complement_eq, BaseUint.shiftRight_eq, BaseUint.div_eq,
    if_neg nonzero, Option.bind_eq_bind, Option.bind_some]
  refine ⟨_, rfl, ?_⟩
  have quotient : (~~~(0 : Uint256) >>> 20 / ((setCompact pindex.nBits).bnTarget + 1)).toNat =
      (2 ^ 236 - 1) / ((setCompact pindex.nBits).bnTarget.toNat + 1) := by
    rw [BitVec.toNat_udiv, shifted, BaseUint.toNat_succ _ bound]
  rw [workTrust, one, quotient]
  split
  next more =>
    rw [Nat.compare_eq_gt] at more
    rw [quotient, Nat.max_eq_right (by omega)]
  next least =>
    rw [Nat.compare_eq_gt] at least
    rw [one, Nat.max_eq_left (by omega)]

theorem workTrust_bound (pindex : ChainBlock) : 1 ≤ workTrust pindex ∧ workTrust pindex < 2 ^ 236 := by
  have quotient := Nat.div_le_self (2 ^ 236 - 1) ((setCompact pindex.nBits).bnTarget.toNat + 1)
  exact ⟨Nat.le_max_left .., Nat.max_lt.mpr ⟨by decide, by omega⟩⟩

theorem getBlockTrust_pos_iff (pindex : ChainBlock)
    (target : (setCompact pindex.nBits).bnTarget ≠ 0) :
    ∃ trust, pindex.getBlockTrust = some trust ∧
      (1 ≤ trust.toNat ↔ pindex.fProofOfStake = false) := by
  cases kind : pindex.fProofOfStake with
  | true => exact ⟨0, getBlockTrust_stake pindex kind, by decide⟩
  | false =>
      obtain ⟨trust, computed, value⟩ := getBlockTrust_work pindex kind target
      have positive := (workTrust_bound pindex).1
      exact ⟨trust, computed, by simpa [value] using positive⟩

theorem bnChainTrust_toNat (chain : List ChainBlock)
    (targets : ∀ pindex ∈ chain, (setCompact pindex.nBits).bnTarget ≠ 0)
    (work : ∀ pindex ∈ chain.dropLast, pindex.fProofOfStake = false)
    (total : (chain.dropLast.map workTrust).sum < 2 ^ 256) :
    ∃ trust, bnChainTrust chain = some trust ∧
      trust.toNat = (chain.dropLast.map workTrust).sum := by
  induction chain with
  | nil => exact ⟨0, rfl, rfl⟩
  | cons pindex ancestors ih =>
      cases ancestors with
      | nil => exact ⟨0, rfl, rfl⟩
      | cons pprev older =>
          rw [List.dropLast_cons_cons] at work total ⊢
          obtain ⟨own, others⟩ := List.forall_mem_cons.mp work
          obtain ⟨target, below⟩ := List.forall_mem_cons.mp targets
          rw [List.map_cons, List.sum_cons] at total ⊢
          obtain ⟨before, summed, value⟩ := ih below others (by omega)
          obtain ⟨trust, computed, weight⟩ := getBlockTrust_work pindex own target
          refine ⟨before + trust, ?_, ?_⟩
          · simp only [bnChainTrust, summed, computed, BaseUint.add_eq, Option.bind_eq_bind,
              Option.bind_some]
          · rw [BitVec.toNat_add, value, weight, Nat.mod_eq_of_lt (by omega), Nat.add_comm]

theorem rises_step_iff (pindex pprev : ChainBlock) (older : List ChainBlock) (before : Uint256)
    (summed : bnChainTrust (pprev :: older) = some before)
    (target : (setCompact pindex.nBits).bnTarget ≠ 0) :
    (∃ first last, bnChainTrust (pprev :: older) = some first ∧
        bnChainTrust (pindex :: pprev :: older) = some last ∧ first < last) ↔
      pindex.fProofOfStake = false ∧ workTrust pindex + before.toNat < 2 ^ 256 := by
  have bound := before.isLt
  cases kind : pindex.fProofOfStake with
  | true =>
      have same : bnChainTrust (pindex :: pprev :: older) = some before := by
        have zero : before + 0 = before := BitVec.add_zero before
        simp only [bnChainTrust, summed, getBlockTrust_stake pindex kind, BaseUint.add_eq,
          Option.bind_eq_bind, Option.bind_some, zero]
      rw [summed, same]
      simp
  | false =>
      obtain ⟨trust, computed, weight⟩ := getBlockTrust_work pindex kind target
      obtain ⟨positive, small⟩ := workTrust_bound pindex
      have after : bnChainTrust (pindex :: pprev :: older) = some (before + trust) := by
        simp only [bnChainTrust, summed, computed, BaseUint.add_eq, Option.bind_eq_bind,
          Option.bind_some]
      have value : (before + trust).toNat = (before.toNat + workTrust pindex) % 2 ^ 256 := by
        rw [BitVec.toNat_add, weight]
      rw [summed, after]
      constructor
      · intro ⟨first, last, isFirst, isLast, less⟩
        rw [← Option.some.inj isFirst, ← Option.some.inj isLast, BitVec.lt_def, value] at less
        exact ⟨rfl, by omega⟩
      · intro fits
        refine ⟨before, before + trust, rfl, rfl, ?_⟩
        rw [BitVec.lt_def, value]
        omega

/-- GetBlockTrust is positive exactly for proof of work, so the trust of a chain rises exactly when
every block after the first is proof of work and the sum stays within the width. -/
theorem bnChainTrust_rises_iff (chain : List ChainBlock)
    (targets : ∀ pindex ∈ chain, (setCompact pindex.nBits).bnTarget ≠ 0) :
    (∀ pindex ∈ chain, ∃ trust, pindex.getBlockTrust = some trust ∧
        (1 ≤ trust.toNat ↔ pindex.fProofOfStake = false)) ∧
      (Rises bnChainTrust chain ↔
        (∀ pindex ∈ chain.dropLast, pindex.fProofOfStake = false) ∧
          (chain.dropLast.map workTrust).sum < 2 ^ 256) := by
  refine ⟨fun pindex member => getBlockTrust_pos_iff pindex (targets pindex member), ?_⟩
  induction chain with
  | nil => simp [Rises]
  | cons pindex ancestors ih =>
      cases ancestors with
      | nil => simp [Rises]
      | cons pprev older =>
          obtain ⟨target, below⟩ := List.forall_mem_cons.mp targets
          rw [Rises, ih below, List.dropLast_cons_cons, List.forall_mem_cons, List.map_cons,
            List.sum_cons]
          constructor
          · intro ⟨step, work, total⟩
            obtain ⟨before, summed, value⟩ := bnChainTrust_toNat (pprev :: older) below work total
            obtain ⟨own, fits⟩ := (rises_step_iff pindex pprev older before summed target).mp step
            rw [value] at fits
            exact ⟨⟨own, work⟩, fits⟩
          · intro ⟨⟨own, work⟩, total⟩
            have smaller : ((pprev :: older).dropLast.map workTrust).sum < 2 ^ 256 := by omega
            obtain ⟨before, summed, value⟩ := bnChainTrust_toNat (pprev :: older) below work smaller
            rw [← value] at total
            exact ⟨(rises_step_iff pindex pprev older before summed target).mpr ⟨own, total⟩, work,
              smaller⟩

def trustGenesis : ChainBlock := ⟨⟨0, 0, 1, 1613150237, 0x1e0fffff, 0⟩, false⟩
def trustWork : ChainBlock := ⟨⟨1, 1, 5, 1613150337, 0x1e0fffff, 0⟩, false⟩
def trustStake : ChainBlock := ⟨⟨2, 2, 5, 1613150437, 0x1e0fffff, 0⟩, true⟩

theorem bnChainTrust_rises_work : Rises bnChainTrust [trustWork, trustGenesis] := by
  refine (bnChainTrust_rises_iff [trustWork, trustGenesis] ?_).2.mpr ?_
  · decide
  · decide +kernel

theorem bnChainTrust_stays_at_stake :
    (setCompact trustStake.nBits).bnTarget ≠ 0 ∧ trustStake.getBlockTrust = some 0 ∧
      ¬ Rises bnChainTrust [trustStake, trustWork, trustGenesis] := by
  refine ⟨by decide, getBlockTrust_stake trustStake rfl, ?_⟩
  intro rises
  obtain ⟨before, summed, _⟩ :=
    bnChainTrust_toNat [trustWork, trustGenesis] (by decide) (by decide) (by decide +kernel)
  have work := (rises_step_iff trustStake trustWork [trustGenesis] before summed (by decide)).mp
    rises.1
  exact Bool.noConfusion work.1

end CryptoYen
