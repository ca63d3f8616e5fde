import CryptoYen.Consensus.Chainstate
import CryptoYen.Staking.KernelModifier

set_option autoImplicit false

namespace CryptoYen

structure StakedKernel where
  stake : CCryptoYenStake
  blockprev : CBlock
  nStakeModifier : BitVec 64

namespace StakedKernel

variable [TxHasher] [KernelHasher] (kernel : StakedKernel) (block : CBlock)

def hashProofOfStake : Uint256 :=
  KernelHasher.hash kernel.nStakeModifier kernel.blockprev.nTime kernel.stake.getUniqueness
    block.nTime

def hits : Bool :=
  stakeTargetHit (kernel.hashProofOfStake block) kernel.stake.getValue
    (setCompact block.nBits).bnTarget

def prove : Except Failure Uint256 := do
  require (kernel.hits block) (.error "CheckProofOfStake() : INFO: check kernel failed on coinstake")
  pure (kernel.hashProofOfStake block)

structure ObeysStakeRules : Prop where
  aged : kernel.blockprev.nTime + nStakeMinAge ≤ block.nTime
  valued : COIN / 100 ≤ kernel.stake.getValue

omit [TxHasher] [KernelHasher] in
theorem obeysStakeRules_iff :
    kernel.ObeysStakeRules block ↔
      kernel.blockprev.nTime + nStakeMinAge ≤ block.nTime ∧
        COIN / 100 ≤ kernel.stake.getValue :=
  ⟨fun rules => ⟨rules.aged, rules.valued⟩, fun ⟨aged, valued⟩ => ⟨aged, valued⟩⟩

theorem prove_ok (hashProof : Uint256) :
    kernel.prove block = .ok hashProof ↔
      kernel.hits block = true ∧ kernel.hashProofOfStake block = hashProof := by
  simp only [prove, Except.bind_ok, exists_unit, require_ok, Except.pure_ok]

end StakedKernel

section Verifier

variable [TxHasher] (ctx : ProofContext) (block : CBlock)

def stakedKernel : Except Failure StakedKernel := do
  let tx ← assertion block.vtx[1]?
  require tx.isCoinStake (.error "CheckProofOfStake() : called on non-coinstake")
  let txin ← assertion tx.vin.head?
  let stake ← kernelInput ctx txin
  require (ctx.verifyScript STANDARD_SCRIPT_VERIFY_FLAGS tx 0 stake.prevTxOut.scriptPubKey).isNone
    (.error "CheckProofOfStake() : VerifySignature failed on coinstake")
  let pindex ← found (stake.getIndexFrom ctx.toKernelContext)
    "CheckProofOfStake: Failed to find the block index"
  let blockprev ← found (ctx.readBlockFromDisk pindex)
    "CheckProofOfStake(): INFO: failed to find block"
  let nStakeModifier ← found (stake.getModifier ctx.toKernelContext)
    "CheckProofOfStake failed to get modifier for stake input"
  pure ⟨stake, blockprev, nStakeModifier⟩

theorem stakedKernel_modifier (kernel : StakedKernel)
    (resolved : stakedKernel ctx block = .ok kernel) :
    kernel.stake.getModifier ctx.toKernelContext = some kernel.nStakeModifier := by
  simp only [stakedKernel, Except.bind_ok, exists_unit, Except.pure_ok] at resolved
  obtain ⟨_, _, _, _, _, stake, _, _, _, _, _, _, nStakeModifier, modifier, rfl⟩ := resolved
  unfold found at modifier
  split at modifier
  next value known =>
    cases modifier
    exact known
  next => simp at modifier

variable [KernelHasher]

theorem checkProofOfStake_eq :
    checkProofOfStake ctx block =
      stakedKernel ctx block >>= fun kernel => kernel.prove block := by
  simp only [checkProofOfStake, stakedKernel, bind_assoc, pure_bind]
  rfl

theorem checkProofOfStake_ok_iff (hashProof : Uint256) :
    checkProofOfStake ctx block = .ok hashProof ↔
      ∃ kernel, stakedKernel ctx block = .ok kernel ∧ kernel.hits block = true ∧
        kernel.hashProofOfStake block = hashProof := by
  simp only [checkProofOfStake_eq, Except.bind_ok, StakedKernel.prove_ok]

def StakeRulesKept : Prop :=
  ∀ hashProof, checkProofOfStake ctx block = .ok hashProof →
    ∃ kernel, stakedKernel ctx block = .ok kernel ∧ kernel.ObeysStakeRules block

/-- The rules are kept exactly when the target is not hit by a kernel that is too young or worth
too little. -/
theorem stakeRulesKept_iff :
    StakeRulesKept ctx block ↔
      ∀ kernel, stakedKernel ctx block = .ok kernel →
        block.nTime < kernel.blockprev.nTime + nStakeMinAge ∨
          kernel.stake.getValue < COIN / 100 →
        kernel.hits block = false := by
  constructor
  · intro kept kernel resolved breaks
    by_contra hit
    rw [Bool.not_eq_false] at hit
    have accepted := (checkProofOfStake_ok_iff ctx block _).mpr ⟨kernel, resolved, hit, rfl⟩
    obtain ⟨same, again, rules⟩ := kept _ accepted
    rw [resolved] at again
    cases again
    have aged := rules.aged
    have valued := rules.valued
    omega
  · intro missed hashProof accepted
    obtain ⟨kernel, resolved, hit, _⟩ := (checkProofOfStake_ok_iff ctx block hashProof).mp accepted
    refine ⟨kernel, resolved, (kernel.obeysStakeRules_iff block).mpr ?_⟩
    by_contra breaks
    have missed := missed kernel resolved (by omega)
    rw [hit] at missed
    cases missed

end Verifier

theorem stakeTargetHit_value (hashProofOfStake bnTargetPerCoinDay : Uint256) (nValueIn : Int)
    (nonneg : 0 ≤ nValueIn)
    (hit : stakeTargetHit hashProofOfStake nValueIn bnTargetPerCoinDay = true) :
    100 ≤ nValueIn := by
  by_contra small
  have weight : (BitVec.ofInt 64 nValueIn).setWidth 256 / 100 = 0 := by
    apply BitVec.eq_of_toNat_eq
    have value : (BitVec.ofInt 64 nValueIn).toNat < 100 := by
      rw [BitVec.toNat_ofInt]
      omega
    simp only [BitVec.toNat_udiv, BitVec.toNat_setWidth]
    exact Nat.div_eq_of_lt (lt_of_le_of_lt (Nat.mod_le _ _) value)
  simp only [stakeTargetHit, weight] at hit
  simp at hit

theorem checkProofOfStake_value [TxHasher] [KernelHasher] (ctx : ProofContext) (block : CBlock)
    (hashProof : Uint256) (accepted : checkProofOfStake ctx block = .ok hashProof) :
    ∃ kernel, stakedKernel ctx block = .ok kernel ∧
      (0 ≤ kernel.stake.getValue → 100 ≤ kernel.stake.getValue) := by
  obtain ⟨kernel, resolved, hit, _⟩ := (checkProofOfStake_ok_iff ctx block hashProof).mp accepted
  exact ⟨kernel, resolved, fun nonneg => stakeTargetHit_value _ _ _ nonneg hit⟩

def youngCoin : CTransaction := ⟨1, [⟨⟨5, 0⟩, [], 0xffffffff⟩], [⟨500000, [0x51]⟩], 0⟩

def youngStake : CBlock where
  nVersion := 4
  hashPrevBlock := 13
  hashMerkleRoot := 0
  nTime := 1700010860
  nBits := 0x1e0ffff0
  nNonce := 0
  vtx :=
    [⟨1, [⟨COutPoint.null, [0x51, 0x51], 0xffffffff⟩], [CTxOut.empty], 0⟩,
      ⟨1, [⟨⟨500000, 0⟩, [], 0xffffffff⟩], [CTxOut.empty, ⟨500000, [0x51]⟩], 0⟩]
  vchBlockSig := [0x30]

def youngContext : ProofContext where
  toKernelContext :=
    hourlyContext.kernel fun hash => if hash = 500000 then some (youngCoin, 13) else none
  verifyScript := fun _ _ _ _ => none
  readBlockFromDisk pindex :=
    some ⟨⟨4, 12, 0, pindex.nTime, 0x1e0ffff0, 0⟩, [youngCoin], []⟩

@[reducible] def everyHitHasher : KernelHasher := ⟨fun _ _ _ _ => 0⟩

theorem youngStake_accepted :
    ¬ @StakeRulesKept outputHasher youngContext youngStake everyHitHasher := by
  intro kept
  obtain ⟨kernel, resolved, rules⟩ := kept 0 (by decide +kernel)
  have known : ∃ kernel, @stakedKernel outputHasher youngContext youngStake = .ok kernel ∧
      kernel.blockprev.nTime = 1700010800 := ⟨_, rfl, rfl⟩
  obtain ⟨_, same, created⟩ := known
  rw [resolved] at same
  cases same
  have aged := rules.aged
  rw [created] at aged
  revert aged
  decide

end CryptoYen
