import CryptoYen.Consensus.Chain
import CryptoYen.Primitives.Script
import CryptoYen.SwiftTX.Locks

set_option autoImplicit false

namespace CryptoYen

namespace CScript

def normalPaymentOp (i : Nat) (opcode : UInt8) : Bool :=
  match i with
  | 0 => opcode == OP_DUP
  | 1 => opcode == OP_HASH160
  | 2 => true
  | 3 => opcode == OP_EQUALVERIFY
  | 4 => opcode == OP_CHECKSIG
  | _ => false

-- A push that runs past the end leaves more operations than the loop allows.
def normalPaymentFrom : Nat → Nat → CScript → Bool
  | _, _, [] => true
  | 0, _, _ :: _ => false
  | fuel + 1, i, pc =>
      match getOp pc with
      | none => false
      | some (opcode, _, rest) => normalPaymentOp i opcode && normalPaymentFrom fuel (i + 1) rest

def isNormalPaymentScript (script : CScript) : Bool :=
  script.length == 25 && normalPaymentFrom 6 0 script

end CScript

structure SwiftContext where
  fLiteMode : Bool
  fBlockchainSynced : Bool
  getTime : Int
  chainActive : CChain
  -- fLargeWorkForkFound || fLargeWorkInvalidChainFound
  fLargeWork : Bool
  nMaxValueSpork : Int
  getTransaction : Uint256 → Option (CTransaction × Uint256)
  getInputAge : CTxIn → Int
  -- what AcceptToMemoryPool decides about a transaction whose inputs are not locked for another
  acceptToMemoryPool : CTransaction → Bool
  getMasternodeRank : CTxIn → Int → Int
  -- the key of a known masternode
  findMasternode : CTxIn → Option (List UInt8)
  verifyMessage : List UInt8 → List UInt8 → String → Bool
  fMasterNode : Bool
  activeMasternode : CTxIn
  signMessage : String → Option (List UInt8)
  -- whether the wallet knows the transaction
  updatedTransaction : Uint256 → Bool

namespace SwiftContext

variable (ctx : SwiftContext)

def disabled : Bool := ctx.fLiteMode || !ctx.fBlockchainSynced

def inputValue (txin : CTxIn) : Option Int :=
  (ctx.getTransaction txin.prevout.hash).map fun found =>
    ((found.1.vout[txin.prevout.n]?).map CTxOut.nValue).getD 0

def isIXTXValid (tx : CTransaction) : Bool :=
  let nValueOut := (tx.vout.map CTxOut.nValue).sum
  let values := tx.vin.map ctx.inputValue
  let missingTx := values.any Option.isNone
  let nValueIn := (values.map fun value => value.getD 0).sum
  if tx.vout.isEmpty then false
  else if tx.nLockTime ≠ 0 then false
  else if ctx.nMaxValueSpork * COIN < nValueOut then false
  else if missingTx then true
  else !(nValueIn - nValueOut < CENT)

def normalOutputs (tx : CTransaction) : Bool :=
  tx.vout.all fun o =>
    CScript.isNormalPaymentScript o.scriptPubKey || CScript.isUnspendable o.scriptPubKey

-- The height that picks the voters: newer than the first input, none when an input is too new.
def lockHeight (tx : CTransaction) : Option Int :=
  if tx.vin.any fun txin => ctx.getInputAge txin < 5 then none
  else some (ctx.chainActive.height - (tx.vin.head?.map ctx.getInputAge).getD 0 + 4)

def newLock (txid : Uint256) (nBlockHeight : Int) : CTransactionLock where
  nBlockHeight := nBlockHeight
  txHash := txid
  vecConsensusVotes := []
  nExpiration := ctx.getTime + 60 * 60
  nTimeout := ctx.getTime + 60 * 5

def createNewLock [TxHasher] (s : SwiftState) (tx : CTransaction) : SwiftState × Int :=
  match ctx.lockHeight tx with
  | none => (s, 0)
  | some nBlockHeight =>
      match s.mapTxLocks.lookup tx.getHash with
      | none =>
          ({ s with
              mapTxLocks := s.mapTxLocks.insert tx.getHash (ctx.newLock tx.getHash nBlockHeight) },
            nBlockHeight)
      | some lock =>
          ({ s with
              mapTxLocks :=
                s.mapTxLocks.insert tx.getHash { lock with nBlockHeight := nBlockHeight } },
            nBlockHeight)

def signatureValid (vote : CConsensusVote) : Bool :=
  match ctx.findMasternode vote.vinMasternode with
  | none => false
  | some pubKeyMasternode =>
      ctx.verifyMessage pubKeyMasternode vote.vchMasterNodeSignature
        (CConsensusVote.message vote.txHash vote.nBlockHeight)

def ownVote [TxHasher] (tx : CTransaction) (nBlockHeight : Int) : Option CConsensusVote :=
  (ctx.signMessage (CConsensusVote.message tx.getHash nBlockHeight)).map fun signature =>
    ⟨ctx.activeMasternode, tx.getHash, nBlockHeight, signature⟩

-- The node's own vote is stored and relayed; no lock receives it.
def doConsensusVote [TxHasher] (s : SwiftState) (tx : CTransaction) (nBlockHeight : Int) :
    SwiftState :=
  let n := ctx.getMasternodeRank ctx.activeMasternode nBlockHeight
  if !ctx.fMasterNode || n = -1 || SWIFTTX_SIGNATURES_TOTAL < n then s
  else
    match ctx.ownVote tx nBlockHeight with
    | none => s
    | some vote =>
        if ctx.signatureValid vote then
          { s with mapTxLockVote := s.mapTxLockVote.insert vote.getHash vote }.emit
            (.relayVote vote.getHash)
        else s

/-- Two complete locks that want one input cancel each other out: both expire at once. -/
def checkForConflictingLocks [TxHasher] (s : SwiftState) (tx : CTransaction) : SwiftState × Bool :=
  match tx.vin.find? (s.lockedForOther tx) with
  | none => (s, false)
  | some txin =>
      ((s.setExpiration tx.getHash ctx.getTime).setExpiration
        ((s.mapLockedInputs.lookup txin.prevout).getD 0) ctx.getTime, true)

def lockSignatures (s : SwiftState) (txid : Uint256) : Int :=
  if ctx.fLargeWork then -2
  else
    match s.mapTxLocks.lookup txid with
    | some lock => lock.countSignatures
    | none => -1

def insertRequest (s : SwiftState) (txid : Uint256) (tx : CTransaction) : SwiftState :=
  { s with mapTxLockReq := Assoc.insertNew s.mapTxLockReq txid tx }

def insertRejected (s : SwiftState) (txid : Uint256) (tx : CTransaction) : SwiftState :=
  { s with mapTxLockReqRejected := Assoc.insertNew s.mapTxLockReqRejected txid tx }

def notifyComplete (s : SwiftState) (txid : Uint256) (tx : CTransaction) : SwiftState :=
  if ctx.lockSignatures s txid = SWIFTTX_SIGNATURES_REQUIRED then s.emit (.notifyTransactionLock tx)
  else s

def acceptRequest [TxHasher] (s : SwiftState) (tx : CTransaction) (nBlockHeight : Int) :
    SwiftState :=
  let voted := ctx.doConsensusVote (s.emit (.relayRequest tx.getHash)) tx nBlockHeight
  ctx.notifyComplete (insertRequest voted tx.getHash tx) tx.getHash tx

def resolveConflicts [TxHasher] (s : SwiftState) (tx : CTransaction) : SwiftState :=
  match s.mapTxLocks.lookup tx.getHash with
  | none => s
  | some lock =>
      if lock.complete then
        let (checked, conflict) := ctx.checkForConflictingLocks s tx
        if conflict then checked
        else insertRequest (checked.emit (.reprocessBlocks 15)) tx.getHash tx
      else s

def refuseRequest [TxHasher] (s : SwiftState) (tx : CTransaction) : SwiftState :=
  ctx.resolveConflicts ((insertRejected s tx.getHash tx).lockInputs tx tx.getHash) tx

def knownRequest (s : SwiftState) (txid : Uint256) : Bool :=
  (s.mapTxLockReq.lookup txid).isSome || (s.mapTxLockReqRejected.lookup txid).isSome

-- AcceptToMemoryPool refuses a transaction with an input that is locked for another.
def accepts [TxHasher] (s : SwiftState) (tx : CTransaction) : Bool :=
  tx.vin.all (fun txin => !s.lockedForOther tx txin) && ctx.acceptToMemoryPool tx

def takesRequest [TxHasher] (s : SwiftState) (tx : CTransaction) : Bool :=
  !ctx.disabled && !knownRequest s tx.getHash && ctx.isIXTXValid tx && normalOutputs tx

def processRequest [TxHasher] (s : SwiftState) (tx : CTransaction) : SwiftState :=
  if ctx.takesRequest s tx then
    let (created, nBlockHeight) := ctx.createNewLock s tx
    if ctx.accepts created tx then ctx.acceptRequest created tx nBlockHeight
    else ctx.refuseRequest created tx
  else s

/-- The wallet and sendrawtransaction store their own request before they create its lock. -/
def submitRequest [TxHasher] (s : SwiftState) (tx : CTransaction) : SwiftState :=
  (ctx.createNewLock (insertRequest s tx.getHash tx) tx).1.emit (.relayRequest tx.getHash)

end SwiftContext

end CryptoYen
