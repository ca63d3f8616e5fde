import CryptoYen.Consensus.CheckInputs
import CryptoYen.Staking.Kernel

set_option autoImplicit false

namespace CryptoYen

structure ProofContext extends KernelContext where
  verifyScript : BitVec 32 → CTransaction → Nat → CScript → Option String
  readBlockFromDisk : CBlockIndex → Option CBlock

/-- The kernel of a coinstake: the first input's output, which is read without a range check. -/
def kernelInput (ctx : ProofContext) (txin : CTxIn) : Except Failure CCryptoYenStake :=
  match ctx.getTransaction txin.prevout.hash with
  | none => throw (.error "CheckProofOfStake() : INFO: read txPrev failed")
  | some (txPrev, _) =>
      if inRange : txin.prevout.n < txPrev.vout.length then pure ⟨txPrev, txin.prevout.n, inRange⟩
      else throw .assertion

def found {α : Type} (result : Option α) (message : String) : Except Failure α :=
  match result with
  | some value => pure value
  | none => throw (.error message)

def checkProofOfStake [TxHasher] [KernelHasher] (ctx : ProofContext) (block : CBlock) :
    Except Failure Uint256 := do
  let tx ← assertion block.vtx[1]?
  require tx.isCoinStake (.error "CheckProofOfStake() : called on non-coinstake")
  let txin ← assertion tx.vin.head?
  let stake ← kernelInput ctx txin
  require (ctx.verifyScript STANDARD_SCRIPT_VERIFY_FLAGS tx 0 stake.prevTxOut.scriptPubKey).isNone
    (.error "CheckProofOfStake() : VerifySignature failed on coinstake")
  let pindex ← found (stake.getIndexFrom ctx.toKernelContext)
    "CheckProofOfStake: Failed to find the block index"
  let blockprev ← found (ctx.readBlockFromDisk pindex)
    "CheckProofOfStake(): INFO: failed to find block"
  let nStakeModifier ← found (stake.getModifier ctx.toKernelContext)
    "CheckProofOfStake failed to get modifier for stake input"
  let (hit, hashProofOfStake) :=
    checkStake stake.getUniqueness stake.getValue nStakeModifier (setCompact block.nBits).bnTarget
      blockprev.nTime block.nTime
  require hit (.error "CheckProofOfStake() : INFO: check kernel failed on coinstake")
  pure hashProofOfStake

end CryptoYen
