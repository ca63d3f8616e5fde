import CryptoYen.Staking.CheckProofOfStake
import CryptoYen.Staking.ModifierAgreement

set_option autoImplicit false

namespace CryptoYen

structure KernelModifier where
  nStakeModifier : BitVec 64
  nStakeModifierHeight : Nat
  nStakeModifierTime : Int
  deriving DecidableEq, Repr

structure ModifierContext where
  params : CChainParams
  chainActive : StakeChain
  mapBlockIndex : Uint256 → Option StakeIndex

/-- The loop that follows the active chain until the reported time reaches nTime. The blocks above
pindex are ahead, the next one in front. -/
def seekModifier (nTime : Int) :
    List StakeIndex → StakeIndex → Nat → Int → Option KernelModifier
  | ahead, pindex, nStakeModifierHeight, nStakeModifierTime =>
      if nStakeModifierTime < nTime then
        match ahead with
        | [] => none
        | pindexNext :: above =>
            if pindexNext.fGeneratedStakeModifier then
              seekModifier nTime above pindexNext pindexNext.nHeight pindexNext.getBlockTime
            else seekModifier nTime above pindexNext nStakeModifierHeight nStakeModifierTime
      else some ⟨pindex.nStakeModifier, nStakeModifierHeight, nStakeModifierTime⟩

theorem seekModifier_generated (nTime : Int) (ahead : List StakeIndex) (pindex : StakeIndex)
    (nStakeModifierHeight : Nat) (nStakeModifierTime : Int) (kernel : KernelModifier)
    (early : nStakeModifierTime < nTime)
    (sought : seekModifier nTime ahead pindex nStakeModifierHeight nStakeModifierTime = some kernel) :
    ∃ generator ∈ ahead, generator.fGeneratedStakeModifier = true ∧
      nTime ≤ generator.getBlockTime ∧
      kernel = ⟨generator.nStakeModifier, generator.nHeight, generator.getBlockTime⟩ := by
  induction ahead generalizing pindex nStakeModifierHeight nStakeModifierTime with
  | nil =>
      unfold seekModifier at sought
      simp [early] at sought
  | cons pindexNext above ih =>
      unfold seekModifier at sought
      simp only [early, ↓reduceIte] at sought
      by_cases generated : pindexNext.fGeneratedStakeModifier = true
      · rw [if_pos generated] at sought
        by_cases again : pindexNext.getBlockTime < nTime
        · obtain ⟨generator, member, found⟩ := ih _ _ _ again sought
          exact ⟨generator, List.mem_cons_of_mem _ member, found⟩
        · unfold seekModifier at sought
          rw [if_neg again] at sought
          cases sought
          exact ⟨pindexNext, List.mem_cons_self, generated, Int.not_lt.mp again, rfl⟩
      · rw [if_neg generated] at sought
        obtain ⟨generator, member, found⟩ := ih _ _ _ early sought
        exact ⟨generator, List.mem_cons_of_mem _ member, found⟩

namespace ModifierContext

variable (ctx : ModifierContext)

def ahead (pindex : StakeIndex) : List StakeIndex :=
  ctx.chainActive.reverse.drop (pindex.nHeight + 1)

def getKernelStakeModifier (hashBlockFrom : Uint256) : Option KernelModifier :=
  match ctx.mapBlockIndex hashBlockFrom with
  | none => none
  | some pindexFrom =>
      if ctx.params.networkID = .regtest then
        some ⟨pindexFrom.nStakeModifier, pindexFrom.nHeight, pindexFrom.getBlockTime⟩
      else
        seekModifier pindexFrom.getBlockTime (ctx.ahead pindexFrom) pindexFrom pindexFrom.nHeight
          pindexFrom.getBlockTime

def kernel (getTransaction : Uint256 → Option (CTransaction × Uint256)) : KernelContext where
  params := ctx.params
  chainActive := ctx.chainActive.map fun pindex => pindex.toCBlockIndex
  getTransaction := getTransaction
  getKernelStakeModifier hashBlockFrom :=
    (ctx.getKernelStakeModifier hashBlockFrom).map KernelModifier.nStakeModifier

-- The kernel names the block of the active chain that generated its modifier, by height and time,
-- and that block comes a selection interval after pindexFrom.
def GeneratedLater (pindexFrom : StakeIndex) (kernel : KernelModifier) : Prop :=
  pindexFrom.getBlockTime + getStakeModifierSelectionInterval ≤ kernel.nStakeModifierTime ∧
    ∃ generator ∈ ctx.chainActive, generator.fGeneratedStakeModifier = true ∧
      kernel = ⟨generator.nStakeModifier, generator.nHeight, generator.getBlockTime⟩

instance (pindexFrom : StakeIndex) (kernel : KernelModifier) :
    Decidable (ctx.GeneratedLater pindexFrom kernel) :=
  inferInstanceAs (Decidable (_ ∧ ∃ generator ∈ ctx.chainActive, _))

def ModifierDelayed (hashBlockFrom : Uint256) : Prop :=
  ∀ found, ctx.getKernelStakeModifier hashBlockFrom = some found →
    ∃ pindexFrom, ctx.mapBlockIndex hashBlockFrom = some pindexFrom ∧
      ctx.GeneratedLater pindexFrom found

theorem seekModifier_delayed (pindexFrom : StakeIndex) (found : KernelModifier)
    (sought :
      seekModifier (pindexFrom.getBlockTime + getStakeModifierSelectionInterval)
        (ctx.ahead pindexFrom) pindexFrom pindexFrom.nHeight pindexFrom.getBlockTime =
          some found) :
    ctx.GeneratedLater pindexFrom found := by
  have early : pindexFrom.getBlockTime <
      pindexFrom.getBlockTime + getStakeModifierSelectionInterval := by
    have positive : 0 < getStakeModifierSelectionInterval := by decide
    omega
  obtain ⟨generator, member, generated, late, rfl⟩ :=
    seekModifier_generated _ _ _ _ _ _ early sought
  have active : generator ∈ ctx.chainActive :=
    List.mem_reverse.mp (List.drop_subset _ _ member)
  exact ⟨late, generator, active, generated, rfl⟩

theorem generatedLater_own (pindexFrom : StakeIndex) (kernel : KernelModifier)
    (own : kernel.nStakeModifierTime = pindexFrom.getBlockTime) :
    ¬ ctx.GeneratedLater pindexFrom kernel := by
  rintro ⟨late, -⟩
  have positive : 0 < getStakeModifierSelectionInterval := by decide
  omega

/-- The loop starts at the time it waits for, so a coin gets the modifier of its own block. -/
theorem getKernelStakeModifier_own (hashBlockFrom : Uint256) :
    ctx.getKernelStakeModifier hashBlockFrom =
      (ctx.mapBlockIndex hashBlockFrom).map fun pindexFrom =>
        ⟨pindexFrom.nStakeModifier, pindexFrom.nHeight, pindexFrom.getBlockTime⟩ := by
  unfold getKernelStakeModifier
  cases ctx.mapBlockIndex hashBlockFrom with
  | none => rfl
  | some pindexFrom =>
      unfold seekModifier
      simp

theorem modifierDelayed_iff (hashBlockFrom : Uint256) :
    ctx.ModifierDelayed hashBlockFrom ↔ ctx.mapBlockIndex hashBlockFrom = none := by
  unfold ModifierDelayed
  rw [getKernelStakeModifier_own]
  cases ctx.mapBlockIndex hashBlockFrom with
  | none => simp
  | some pindexFrom =>
      have undelayed := ctx.generatedLater_own pindexFrom
        ⟨pindexFrom.nStakeModifier, pindexFrom.nHeight, pindexFrom.getBlockTime⟩ rfl
      simp [undelayed]

theorem getModifier_own [TxHasher] (getTransaction : Uint256 → Option (CTransaction × Uint256))
    (stake : CCryptoYenStake) :
    stake.getModifier (ctx.kernel getTransaction) =
      (stake.getIndexFrom (ctx.kernel getTransaction)).bind fun pindexFrom =>
        (ctx.mapBlockIndex pindexFrom.phashBlock).map StakeIndex.nStakeModifier := by
  unfold CCryptoYenStake.getModifier
  cases stake.getIndexFrom (ctx.kernel getTransaction) with
  | none => rfl
  | some pindexFrom =>
      simp only [kernel, getKernelStakeModifier_own, Option.map_map, Option.bind_some]
      rfl

end ModifierContext

def hourlyChain : StakeChain :=
  @indexBlocks sumSelectionHasher ⟨0x55d0c0de1234, []⟩ CChainParams.mainParams
    [plainBlock 13 1700010800, plainBlock 12 1700007200, plainBlock 11 1700003600,
      plainBlock 10 1700000000]

def hourlyContext : ModifierContext where
  params := CChainParams.mainParams
  chainActive := hourlyChain
  mapBlockIndex hash := hourlyChain.find? fun pindex => pindex.phashBlock == hash

-- A coin of the first block is staked with the modifier that its own block got.
theorem hourlyContext_undelayed : ¬ hourlyContext.ModifierDelayed 11 := by
  intro delayed
  obtain ⟨pindexFrom, indexed, later⟩ :=
    delayed ⟨0x55d0c0de1234, 1, 1700003600⟩ (by decide +kernel)
  have entry : hourlyContext.mapBlockIndex 11 =
      some ⟨{ plainBlock 11 1700003600 with nHeight := 1 }, 0x55d0c0de1234, true⟩ := by
    decide +kernel
  rw [entry] at indexed
  cases indexed
  revert later
  decide +kernel

end CryptoYen
