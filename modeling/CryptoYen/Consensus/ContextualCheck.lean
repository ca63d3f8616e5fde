import CryptoYen.Consensus.CheckBlock

set_option autoImplicit false

namespace CryptoYen

namespace Checkpoints

def getLastCheckpoint (ctx : BlockContext) : Option CChain :=
  if !ctx.fCheckpointsEnabled then none
  else ctx.params.mapCheckpoints.reverse.findSome? fun checkpoint => ctx.mapBlockIndex checkpoint.2

end Checkpoints

def checkHeaderPlace [BlockHasher] (ctx : BlockContext) (block : CBlockHeader)
    (pindexPrev : CChain) : Check := do
  let nHeight := pindexPrev.height + 1
  require
    (!(ctx.params.networkID == .regtest && block.nBits != getNextWorkRequired ctx.params pindexPrev))
    (.dos 100 REJECT_INVALID "bad-diffbits")
  require (!((ctx.nMaxReorgDepth : Int) ≤ ctx.chainActive.height - nHeight)) (.dos 1 0 "")
  require
    (!(block.getBlockTime ≤ pindexPrev.getMedianTimePast && ctx.params.networkID != .regtest))
    (.dos 0 REJECT_INVALID "time-too-old")
  require
    (Checkpoints.checkBlock ctx.fCheckpointsEnabled ctx.params nHeight.toNat block.getHash false)
    (.dos 100 REJECT_CHECKPOINT "checkpoint mismatch")
  require
    (!((Checkpoints.getLastCheckpoint ctx).any fun pcheckpoint => nHeight < pcheckpoint.height))
    (.dos 0 0 "")
  require (!(block.nVersion < 2)) (.dos 0 REJECT_OBSOLETE "bad-version")

def contextualCheckBlockHeader [BlockHasher] (ctx : BlockContext) (block : CBlockHeader)
    (pindexPrev : CChain) : Check :=
  if block.getHash = ctx.params.hashGenesisBlock then pure ()
  else
    match pindexPrev with
    | [] => throw .assertion
    | _ => checkHeaderPlace ctx block pindexPrev

def checkFinal (ctx : BlockContext) (block : CBlock) (nHeight : Int) (tx : CTransaction) : Check :=
  require (isFinalTx ctx.toNodeContext tx nHeight block.nTime)
    (.dos 10 REJECT_INVALID "bad-txns-nonfinal")

def checkCoinBaseHeight (block : CBlock) (nHeight : Int) : Check :=
  if block.nVersion < 2 then pure ()
  else do
    let coinbase ← assertion block.vtx.head?
    let txin ← assertion coinbase.vin.head?
    require ((CScript.pushInt64 nHeight).isPrefixOf txin.scriptSig)
      (.dos 100 REJECT_INVALID "bad-cb-height")

def contextualCheckBlock (ctx : BlockContext) (block : CBlock) (pindexPrev : CChain) : Check := do
  forM block.vtx (checkFinal ctx block (pindexPrev.height + 1))
  checkCoinBaseHeight block (pindexPrev.height + 1)

theorem contextualCheckBlockHeader_version [BlockHasher] (ctx : BlockContext)
    (block : CBlockHeader) (pindexPrev : CChain)
    (checked : contextualCheckBlockHeader ctx block pindexPrev = .ok ())
    (other : block.getHash ≠ ctx.params.hashGenesisBlock) : 2 ≤ block.nVersion := by
  simp only [contextualCheckBlockHeader, other, ↓reduceIte] at checked
  split at checked
  next => simp at checked
  next =>
    simp only [checkHeaderPlace, Except.bind_ok, exists_unit, require_ok] at checked
    obtain ⟨_, _, _, _, _, version⟩ := checked
    rw [Bool.not_eq_true', decide_eq_false_iff_not] at version
    exact Int.not_lt.mp version

theorem contextualCheckBlock_height (ctx : BlockContext) (block : CBlock) (pindexPrev : CChain)
    (checked : contextualCheckBlock ctx block pindexPrev = .ok ()) (version : 2 ≤ block.nVersion) :
    ∃ coinbase txin, block.vtx.head? = some coinbase ∧ coinbase.vin.head? = some txin ∧
      CScript.pushInt64 (pindexPrev.height + 1) <+: txin.scriptSig := by
  simp only [contextualCheckBlock, Except.bind_ok, exists_unit] at checked
  have heightChecked := checked.2
  unfold checkCoinBaseHeight at heightChecked
  rw [if_neg (by omega)] at heightChecked
  simp only [Except.bind_ok, assertion_ok, require_ok, List.isPrefixOf_iff_prefix] at heightChecked
  obtain ⟨coinbase, first, txin, input, starts⟩ := heightChecked
  exact ⟨coinbase, txin, first, input, starts⟩

end CryptoYen
