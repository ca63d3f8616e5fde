import CryptoYen.Consensus.CheckInputs
import CryptoYen.Consensus.Work

set_option autoImplicit false

namespace CryptoYen

structure BlockContext extends NodeContext where
  fCheckpointsEnabled : Bool
  fMasternodeSynced : Bool
  isTransactionValid : CTransaction → Int → Bool
  -- outcome of writing undo data and the transaction index
  writeUndo : Check

def checkBlockTime (ctx : BlockContext) (block : CBlock) : Check :=
  require
    (ctx.params.networkID == .regtest ||
      !(ctx.nAdjustedTime + (if block.isProofOfStake then 180 else 7200) < (block.nTime : Int)))
    (.dos 0 REJECT_INVALID "time-too-new")

def checkMerkleRoot [TxHasher] [MerkleHasher] (block : CBlock) : Check := do
  let (hashMerkleRoot2, mutated) := block.buildMerkleTree
  require (block.hashMerkleRoot == hashMerkleRoot2)
    (.invalid 100 REJECT_INVALID "bad-txnmrklroot" true)
  require (!mutated) (.invalid 100 REJECT_INVALID "bad-txns-duplicate" true)

def checkMerkle [TxHasher] [MerkleHasher] (fCheckMerkleRoot : Bool) (block : CBlock) : Check :=
  if fCheckMerkleRoot then checkMerkleRoot block else pure ()

def checkBlockSize (block : CBlock) : Check :=
  require
    (!(block.vtx.isEmpty || MAX_BLOCK_SIZE_CURRENT < block.vtx.length ||
      MAX_BLOCK_SIZE_CURRENT < block.getSerializeSize))
    (.dos 100 REJECT_INVALID "bad-blk-length")

def checkCoinBases (block : CBlock) : Check := do
  require (block.vtx.head?.any CTransaction.isCoinBase) (.dos 100 REJECT_INVALID "bad-cb-missing")
  require (block.vtx.tail.all fun tx => !tx.isCoinBase)
    (.dos 100 REJECT_INVALID "bad-cb-multiple")

def checkCoinStakes (block : CBlock) : Check :=
  if block.isProofOfStake then do
    require (block.vtx.head?.any fun tx => tx.vout.length == 1 && tx.vout.all CTxOut.isEmpty)
      (.dos 100 0 "")
    require block.isProofOfStake (.dos 100 0 "")
    require ((block.vtx.drop 2).all fun tx => !tx.isCoinStake) (.dos 100 0 "")
  else pure ()

def lockedElsewhere [TxHasher] (ctx : BlockContext) (tx : CTransaction) (txin : CTxIn) : Bool :=
  match ctx.mapLockedInputs txin.prevout with
  | none => false
  | some txid => txid != tx.getHash

def checkLockedInputs [TxHasher] (ctx : BlockContext) (tx : CTransaction) : Check :=
  require (tx.isCoinBase || tx.vin.all fun txin => !lockedElsewhere ctx tx txin)
    (.dos 0 REJECT_INVALID "conflicting-tx-ix")

/-- IsBlockPayeeValid; block.vtx[1] is read without a test of its presence. -/
def isBlockPayeeValid (ctx : BlockContext) (block : CBlock) (nBlockHeight : Int) :
    Except Failure Bool :=
  if !ctx.fMasternodeSynced then pure true
  else do
    let txNew ← assertion
      block.vtx[if (ctx.params.nLastPOWBlock : Int) < nBlockHeight then 1 else 0]?
    pure (ctx.isTransactionValid txNew nBlockHeight)

-- The height that CheckBlock derives for the payments; zero when the parent is unknown.
def payeeHeight (ctx : BlockContext) (block : CBlock) : Int :=
  match ctx.chainActive with
  | [] => 0
  | tip :: _ =>
      if tip.phashBlock = block.hashPrevBlock then tip.nHeight + 1
      else
        match ctx.mapBlockIndex block.hashPrevBlock with
        | some pindexPrev => pindexPrev.height + 1
        | none => 0

def checkPayee (ctx : BlockContext) (block : CBlock) : Check :=
  if payeeHeight ctx block = 0 ∨ ctx.fInitialBlockDownload = true then pure ()
  else do
    let valid ← isBlockPayeeValid ctx block (payeeHeight ctx block)
    require valid (.dos 0 REJECT_INVALID "bad-cb-payee")

def checkBlockSigOps (block : CBlock) : Check :=
  require (!(MAX_BLOCK_SIGOPS < (block.vtx.map getLegacySigOpCount).sum))
    (.invalid 100 REJECT_INVALID "bad-blk-sigops" true)

/-- CheckBlock. Its own parameter fCheckPOW is not used: the header is checked for proof-of-work
blocks. -/
def checkBlock [TxHasher] [BlockHasher] [MerkleHasher] (ctx : BlockContext) (block : CBlock)
    (_fCheckPOW fCheckMerkleRoot : Bool) : Check := do
  (checkBlockHeader ctx.params block.toCBlockHeader block.isProofOfWork).mapError fun failure =>
    failure.andDoS 100 REJECT_INVALID "bad-header" true
  checkBlockTime ctx block
  checkMerkle fCheckMerkleRoot block
  checkBlockSize block
  checkCoinBases block
  checkCoinStakes block
  forM block.vtx (checkLockedInputs ctx)
  checkPayee ctx block
  forM block.vtx (checkTransaction ctx.params)
  checkBlockSigOps block

structure BlockShape (params : CChainParams) (block : CBlock) : Prop where
  shape : ∃ coinbase rest, block.vtx = coinbase :: rest ∧ coinbase.isCoinBase = true ∧
    ∀ tx ∈ rest, tx.isCoinBase = false
  transactions : ∀ tx ∈ block.vtx, checkTransaction params tx = .ok ()
  length : block.vtx.length ≤ MAX_BLOCK_SIZE_CURRENT

theorem checkCoinBases_ok (block : CBlock) :
    checkCoinBases block = .ok () ↔
      ∃ coinbase rest, block.vtx = coinbase :: rest ∧ coinbase.isCoinBase = true ∧
        ∀ tx ∈ rest, tx.isCoinBase = false := by
  simp only [checkCoinBases, Except.bind_ok, exists_unit, require_ok]
  cases block.vtx with
  | nil => simp
  | cons coinbase rest => simp

theorem checkBlock_ok [TxHasher] [BlockHasher] [MerkleHasher] (ctx : BlockContext)
    (block : CBlock) (fCheckPOW fCheckMerkleRoot : Bool) :
    checkBlock ctx block fCheckPOW fCheckMerkleRoot = .ok () ↔
      checkBlockHeader ctx.params block.toCBlockHeader block.isProofOfWork = .ok () ∧
        checkBlockTime ctx block = .ok () ∧
        checkMerkle fCheckMerkleRoot block = .ok () ∧
        checkBlockSize block = .ok () ∧ checkCoinBases block = .ok () ∧
        checkCoinStakes block = .ok () ∧
        (∀ tx ∈ block.vtx, checkLockedInputs ctx tx = .ok ()) ∧ checkPayee ctx block = .ok () ∧
        (∀ tx ∈ block.vtx, checkTransaction ctx.params tx = .ok ()) ∧
        checkBlockSigOps block = .ok () := by
  simp only [checkBlock, Except.bind_ok, exists_unit, Except.mapError_ok, forM_ok]

theorem checkBlock_shape [TxHasher] [BlockHasher] [MerkleHasher] (ctx : BlockContext)
    (block : CBlock) (fCheckPOW fCheckMerkleRoot : Bool)
    (checked : checkBlock ctx block fCheckPOW fCheckMerkleRoot = .ok ()) :
    BlockShape ctx.params block := by
  obtain ⟨_, _, _, size, coinbases, _, _, _, transactions, _⟩ :=
    (checkBlock_ok ctx block fCheckPOW fCheckMerkleRoot).mp checked
  have length : block.vtx.length ≤ MAX_BLOCK_SIZE_CURRENT := by
    simp only [checkBlockSize, require_ok, Bool.not_eq_true', Bool.or_eq_false_iff,
      decide_eq_false_iff_not, Nat.not_lt] at size
    exact size.1.2
  exact ⟨(checkCoinBases_ok block).mp coinbases, transactions, length⟩

end CryptoYen
