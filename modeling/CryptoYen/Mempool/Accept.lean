import CryptoYen.Consensus.CheckInputs
import CryptoYen.Mempool.Pool

set_option autoImplicit false

namespace CryptoYen

def DEFAULT_BLOCK_PRIORITY_SIZE : Nat := 50000

-- What AcceptToMemoryPool reads besides the pool, the transaction and its own flags. Priorities
-- and the rate limit are floating-point state of the node; only their verdicts count here.
structure MempoolContext extends NodeContext where
  pcoinsTip : CCoinsView
  nTime : Int
  nSatoshisPerK : Int
  fRelayPriority : Bool
  isStandardTx : CTransaction → Option String
  areInputsStandard : CTransaction → CCoinsView → Bool
  mapObfuscationBroadcastTxes : Uint256 → Bool
  allowFree : CTransaction → CCoinsView → Bool
  rateLimited : Nat → Bool

structure AcceptFlags where
  fLimitFree : Bool
  fRejectInsaneFee : Bool
  ignoreFees : Bool

def getFee (nSatoshisPerK : Int) (nSize : Nat) : Int :=
  let nFee := (nSatoshisPerK * nSize).tdiv 1000
  if nFee = 0 ∧ 0 < nSatoshisPerK then nSatoshisPerK else nFee

def getMinRelayFee [TxHasher] (ctx : MempoolContext) (pool : CTxMemPool) (tx : CTransaction)
    (nBytes : Nat) (fAllowFree : Bool) : Int :=
  let deltas := pool.applyDeltas tx.getHash
  if 0 < deltas.1 ∨ 0 < deltas.2 then 0
  else
    let nMinFee :=
      if fAllowFree && nBytes < DEFAULT_BLOCK_PRIORITY_SIZE - 1000 then 0
      else getFee ctx.nSatoshisPerK nBytes
    if moneyRange ctx.params nMinFee then nMinFee else ctx.params.nMaxMoneyOut

-- A transaction of the pool always wins over the coins below it.
def viewMemPool (pool : CTxMemPool) (pcoinsTip : CCoinsView) : CCoinsView where
  coins := fun txid =>
    match pool.mapTx.lookup txid with
    | some entry => some (CleanCoins.of (CCoins.fromTx entry.tx MEMPOOL_HEIGHT))
    | none => (pcoinsTip.coins txid).filter fun coins => !coins.isPruned
  hashBlock := pcoinsTip.hashBlock

def checkFinalTx (ctx : NodeContext) (tx : CTransaction) : Bool :=
  isFinalTx ctx tx (ctx.chainActive.height + 1) ctx.chainActive.getMedianTimePast

def checkStandard (ctx : MempoolContext) (tx : CTransaction) : Check :=
  if ctx.params.fRequireStandard then
    match ctx.isStandardTx tx with
    | some reason => .error (.dos 0 REJECT_NONSTANDARD reason)
    | none => .ok ()
  else .ok ()

def checkLock [TxHasher] (mapLockedInputs : COutPoint → Option Uint256) (tx : CTransaction)
    (failure : Failure) (txin : CTxIn) : Check :=
  match mapLockedInputs txin.prevout with
  | some locked => require (locked == tx.getHash) failure
  | none => .ok ()

def checkLooseTx [TxHasher] (ctx : MempoolContext) (pool : CTxMemPool) (tx : CTransaction) :
    Check := do
  checkTransaction ctx.params tx
  require (!tx.isCoinBase) (.dos 100 REJECT_INVALID "coinbase")
  require (!tx.isCoinStake) (.dos 100 REJECT_INVALID "coinstake")
  require (checkFinalTx ctx.toNodeContext tx) (.dos 0 REJECT_NONSTANDARD "non-final")
  checkStandard ctx tx
  require (!pool.existsTx tx.getHash) .rejected
  forM tx.vin (checkLock ctx.mapLockedInputs tx (.dos 0 REJECT_INVALID "tx-lock-conflict"))

def checkInputCoins (ctx : MempoolContext) (view : CCoinsView) (txin : CTxIn) : Check := do
  require (view.haveCoins txin.prevout.hash) .rejected
  require (validOutPoint ctx.params ctx.chainActive.height)
    (.dos 0 REJECT_INVALID "bad-txns-invalid-inputs")

def checkPoolInputs [TxHasher] (ctx : MempoolContext) (view : CCoinsView) (tx : CTransaction) :
    Except Failure Int := do
  require (!view.haveCoins tx.getHash) .rejected
  forM tx.vin (checkInputCoins ctx view)
  require (view.haveInputs tx) (.dos 0 REJECT_DUPLICATE "bad-txns-inputs-spent")
  let nValueIn ← assertion (view.getValueIn tx)
  require (!ctx.params.fRequireStandard || ctx.areInputsStandard tx view) .rejected
  let nP2SHSigOps ← assertion (getP2SHSigOpCount tx view)
  require (getLegacySigOpCount tx + nP2SHSigOps ≤ MAX_TX_SIGOPS)
    (.dos 0 REJECT_NONSTANDARD "bad-txns-too-many-sigops")
  let nValueOut ← assertion tx.getValueOut
  pure (nValueIn - nValueOut)

def checkFees [TxHasher] (ctx : MempoolContext) (flags : AcceptFlags) (pool : CTxMemPool)
    (view : CCoinsView) (tx : CTransaction) (nFees : Int) (nSize : Nat) : Check := do
  require (!(flags.fLimitFree && nFees < getMinRelayFee ctx pool tx nSize true))
    (.dos 0 REJECT_INSUFFICIENTFEE "insufficient fee")
  require (!(ctx.fRelayPriority && nFees < getFee ctx.nSatoshisPerK nSize &&
      !ctx.allowFree tx view))
    (.dos 0 REJECT_INSUFFICIENTFEE "insufficient priority")
  require (!(flags.fLimitFree && nFees < getFee ctx.nSatoshisPerK nSize &&
      ctx.rateLimited nSize))
    (.dos 0 REJECT_INSUFFICIENTFEE "rate limited free transaction")

def checkStorable [TxHasher] (ctx : MempoolContext) (flags : AcceptFlags) (pool : CTxMemPool)
    (view : CCoinsView) (tx : CTransaction) (nFees : Int) (nSize : Nat) : Check := do
  if ctx.mapObfuscationBroadcastTxes tx.getHash || flags.ignoreFees then .ok ()
  else checkFees ctx flags pool view tx nFees nSize
  require (!(flags.fRejectInsaneFee && getFee ctx.nSatoshisPerK nSize * 10000 < nFees)) .rejected
  checkInputs ctx.toNodeContext tx view true STANDARD_SCRIPT_VERIFY_FLAGS
  checkInputs ctx.toNodeContext tx view true MANDATORY_SCRIPT_VERIFY_FLAGS

def newEntry (ctx : MempoolContext) (tx : CTransaction) (nFees : Int) : CTxMemPoolEntry where
  tx := tx
  nFee := nFees
  nTxSize := tx.getSerializeSize
  nTime := ctx.nTime
  nHeight := ctx.chainActive.height

def acceptChecks [TxHasher] (ctx : MempoolContext) (flags : AcceptFlags) (pool : CTxMemPool)
    (tx : CTransaction) : Except Failure CTxMemPoolEntry := do
  checkLooseTx ctx pool tx
  let view := viewMemPool pool ctx.pcoinsTip
  let nFees ← checkPoolInputs ctx view tx
  checkStorable ctx flags pool view tx nFees tx.getSerializeSize
  pure (newEntry ctx tx nFees)

-- A broadcast obfuscation transaction is prioritised as soon as its inputs have passed, whatever
-- the checks after that say.
def prioritised [TxHasher] (ctx : MempoolContext) (pool : CTxMemPool) (tx : CTransaction) :
    CTxMemPool :=
  match checkLooseTx ctx pool tx, checkPoolInputs ctx (viewMemPool pool ctx.pcoinsTip) tx with
  | .ok _, .ok _ =>
      if ctx.mapObfuscationBroadcastTxes tx.getHash then
        pool.prioritiseTransaction tx.getHash 1000 (COIN / 10)
      else pool
  | _, _ => pool

-- The loop over the inputs stops at the first one that nobody knows or that is not valid.
def stopsAtMissing (ctx : MempoolContext) (view : CCoinsView) : List CTxIn → Bool
  | [] => false
  | txin :: rest =>
      if !view.haveCoins txin.prevout.hash then true
      else validOutPoint ctx.params ctx.chainActive.height && stopsAtMissing ctx view rest

def missingInputs [TxHasher] (ctx : MempoolContext) (pool : CTxMemPool) (tx : CTransaction) :
    Bool :=
  let view := viewMemPool pool ctx.pcoinsTip
  match checkLooseTx ctx pool tx with
  | .ok _ => !view.haveCoins tx.getHash && stopsAtMissing ctx view tx.vin
  | .error _ => false

structure AcceptResult where
  pool : CTxMemPool
  result : Check
  fMissingInputs : Bool

def acceptToMemoryPool [TxHasher] (ctx : MempoolContext) (flags : AcceptFlags)
    (pool : CTxMemPool) (tx : CTransaction) : AcceptResult :=
  let pool' := prioritised ctx pool tx
  match acceptChecks ctx flags pool tx with
  | .ok entry => ⟨pool'.addUnchecked tx.getHash entry, .ok (), false⟩
  | .error failure => ⟨pool', .error failure, missingInputs ctx pool tx⟩

end CryptoYen
