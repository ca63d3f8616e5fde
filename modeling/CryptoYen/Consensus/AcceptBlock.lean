import CryptoYen.Consensus.ContextualCheck
import CryptoYen.Staking.CheckProofOfStake

set_option autoImplicit false

namespace CryptoYen

structure AcceptContext extends BlockContext where
  getTransaction : Uint256 → Option (CTransaction × Uint256)
  getKernelStakeModifier : Uint256 → Option (BitVec 64)
  readBlockFromDisk : CBlockIndex → Option CBlock
  pcoinsTip : CCoinsView
  -- nStatus & BLOCK_FAILED_MASK and nStatus & BLOCK_HAVE_DATA of an index entry
  fFailed : Uint256 → Bool
  fHaveData : Uint256 → Bool
  -- whether ReconsiderBlock leaves a valid state
  reconsiders : Uint256 → Bool
  writeBlock : Check

def AcceptContext.proof (ctx : AcceptContext) : ProofContext where
  params := ctx.params
  chainActive := ctx.chainActive
  getTransaction := ctx.getTransaction
  getKernelStakeModifier := ctx.getKernelStakeModifier
  verifyScript := ctx.verifyScript
  readBlockFromDisk := ctx.readBlockFromDisk

inductive Accepted
  | stored | known | reconsidered
  deriving DecidableEq, Repr

def isGenesis [BlockHasher] (ctx : AcceptContext) (block : CBlock) : Bool :=
  block.getHash == ctx.params.hashGenesisBlock

/-- The parent of a block; none stands for the early return of a reconsidered parent. -/
def acceptParent [BlockHasher] (ctx : AcceptContext) (block : CBlock) :
    Except Failure (Option CChain) :=
  if isGenesis ctx block then pure (some [])
  else
    match ctx.mapBlockIndex block.hashPrevBlock with
    | none => throw (.dos 0 0 "bad-prevblk")
    | some pindexPrev =>
        if !ctx.fFailed block.hashPrevBlock then pure (some pindexPrev)
        else if Checkpoints.checkBlock ctx.fCheckpointsEnabled ctx.params pindexPrev.height.toNat
            block.hashPrevBlock true && ctx.reconsiders block.hashPrevBlock then pure none
        else throw (.dos 100 REJECT_INVALID "bad-prevblk")

def checkWorkUnlessGenesis [BlockHasher] (ctx : AcceptContext) (block : CBlock)
    (pindexPrev : CChain) : Check :=
  if isGenesis ctx block then pure () else checkWork ctx.params block.toCBlockHeader pindexPrev

def checkStakeProof [TxHasher] [KernelHasher] (ctx : AcceptContext) (block : CBlock) : Check :=
  if block.isProofOfStake then
    match checkProofOfStake ctx.proof block with
    | .ok _ => pure ()
    | .error .assertion => throw .assertion
    | .error _ => throw (.dos 100 0 "")
  else pure ()

def acceptBlockHeader [BlockHasher] (ctx : AcceptContext) (block : CBlock) (pindexPrev : CChain) :
    Check :=
  if (ctx.mapBlockIndex block.getHash).isSome then
    require (!ctx.fFailed block.getHash) (.dos 0 0 "duplicate")
  else do
    checkBlockHeader ctx.params block.toCBlockHeader false
    require (isGenesis ctx block || !ctx.fFailed block.hashPrevBlock)
      (.dos 100 REJECT_INVALID "bad-prevblk")
    contextualCheckBlockHeader ctx.toBlockContext block.toCBlockHeader pindexPrev

def checkUnlessAccepted [TxHasher] [BlockHasher] [MerkleHasher] (ctx : AcceptContext)
    (block : CBlock) (fAlreadyCheckedBlock : Bool) : Check :=
  if fAlreadyCheckedBlock then pure () else checkBlock ctx.toBlockContext block true true

def spendsStakeInput (stakeTx : CTransaction) (block : CBlock) : Bool :=
  block.vtx.any fun tx => tx.vin.any fun txin =>
    stakeTx.vin.any fun stakeIn => stakeIn.prevout == txin.prevout

def forkSplit (ctx : AcceptContext) (stakeTx : CTransaction) :
    Nat → CChain → Except Failure Nat
  | _, [] => throw .assertion
  | readBlock, prev :: ancestors =>
      if readBlock = ctx.params.nMaxReorganizationDepth then
        throw (.error "AcceptBlock: forked chain longer than maximum reorg limit")
      else
        match ctx.readBlockFromDisk prev with
        | none => throw (.error "AcceptBlock: previous block not on disk")
        | some bl =>
            if spendsStakeInput stakeTx bl then throw (.dos 100 0 "")
            else
              match ancestors with
              | [] => throw .assertion
              | parent :: _ =>
                  if ctx.chainActive.contains parent then pure parent.nHeight
                  else forkSplit ctx stakeTx (readBlock + 1) ancestors

-- splitHeight; none when the parent is the tip
def splitHeight (ctx : AcceptContext) (stakeTx : CTransaction) (pindexPrev : CChain) :
    Except Failure (Option Nat) :=
  if pindexPrev = [] ∨ ctx.chainActive.head? = pindexPrev.head? then pure none
  else (forkSplit ctx stakeTx 0 pindexPrev).map some

def checkStakeInput (ctx : AcceptContext) (split : Option Nat) (txin : CTxIn) : Check :=
  match ctx.pcoinsTip.coins txin.prevout.hash with
  | none =>
      require split.isSome (.error "AcceptBlock: coin stake inputs not available on main chain")
  | some coin =>
      require
        (coin.val.isAvailable txin.prevout.n || split.any fun height => height < coin.val.nHeight)
        (.error "AcceptBlock: coin stake inputs already spent in main chain")

def checkStakeCoins (ctx : AcceptContext) (block : CBlock) (pindexPrev : CChain) : Check :=
  if block.isProofOfStake then do
    let stakeTx ← assertion block.vtx[1]?
    let split ← splitHeight ctx stakeTx pindexPrev
    forM stakeTx.vin (checkStakeInput ctx split)
  else pure ()

def storeBlock [TxHasher] [BlockHasher] [MerkleHasher] (ctx : AcceptContext) (block : CBlock)
    (pindexPrev : CChain) (fAlreadyCheckedBlock : Bool) : Except Failure Accepted := do
  checkUnlessAccepted ctx block fAlreadyCheckedBlock
  contextualCheckBlock ctx.toBlockContext block pindexPrev
  checkStakeCoins ctx block pindexPrev
  ctx.writeBlock
  pure .stored

def acceptOnParent [TxHasher] [BlockHasher] [MerkleHasher] [KernelHasher] (ctx : AcceptContext)
    (block : CBlock) (fAlreadyCheckedBlock : Bool) (pindexPrev : CChain) :
    Except Failure Accepted := do
  checkWorkUnlessGenesis ctx block pindexPrev
  checkStakeProof ctx block
  acceptBlockHeader ctx block pindexPrev
  if ctx.fHaveData block.getHash then pure .known
  else storeBlock ctx block pindexPrev fAlreadyCheckedBlock

def acceptBlock [TxHasher] [BlockHasher] [MerkleHasher] [KernelHasher] (ctx : AcceptContext)
    (block : CBlock) (fAlreadyCheckedBlock : Bool) : Except Failure Accepted := do
  match ← acceptParent ctx block with
  | none => pure .reconsidered
  | some pindexPrev => acceptOnParent ctx block fAlreadyCheckedBlock pindexPrev

theorem checkStakeProof_ok [TxHasher] [KernelHasher] (ctx : AcceptContext) (block : CBlock)
    (checked : checkStakeProof ctx block = .ok ()) (stakes : block.isProofOfStake = true) :
    ∃ hashProofOfStake, checkProofOfStake ctx.proof block = .ok hashProofOfStake := by
  simp only [checkStakeProof, stakes, ↓reduceIte] at checked
  split at checked
  next hashProofOfStake proof => exact ⟨hashProofOfStake, proof⟩
  next => simp at checked
  next => simp at checked

theorem acceptBlock_proof [TxHasher] [BlockHasher] [MerkleHasher] [KernelHasher]
    (ctx : AcceptContext) (block : CBlock) (fAlreadyCheckedBlock : Bool)
    (accepted : acceptBlock ctx block fAlreadyCheckedBlock = .ok .stored)
    (stakes : block.isProofOfStake = true) :
    ∃ hashProofOfStake, checkProofOfStake ctx.proof block = .ok hashProofOfStake := by
  simp only [acceptBlock, Except.bind_ok] at accepted
  obtain ⟨parent, _, accepted⟩ := accepted
  cases parent with
  | none => cases accepted
  | some pindexPrev =>
      simp only [acceptOnParent, Except.bind_ok, exists_unit] at accepted
      exact checkStakeProof_ok ctx block accepted.2.1 stakes

end CryptoYen
