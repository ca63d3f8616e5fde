import CryptoYen.Library.Assoc
import CryptoYen.Primitives.Transaction

set_option autoImplicit false

namespace CryptoYen

def SWIFTTX_SIGNATURES_REQUIRED : Int := 6
def SWIFTTX_SIGNATURES_TOTAL : Int := 10

structure CConsensusVote where
  vinMasternode : CTxIn
  txHash : Uint256
  nBlockHeight : Int
  vchMasterNodeSignature : List UInt8
  deriving DecidableEq, Repr

namespace CConsensusVote

-- The masternode's outpoint and the transaction, neither the height nor the signature.
def getHash (vote : CConsensusVote) : Uint256 :=
  vote.vinMasternode.prevout.hash + BitVec.ofNat 256 vote.vinMasternode.prevout.n + vote.txHash

def message (txHash : Uint256) (nBlockHeight : Int) : String := txHash.toHex ++ toString nBlockHeight

end CConsensusVote

structure CTransactionLock where
  nBlockHeight : Int
  txHash : Uint256
  vecConsensusVotes : List CConsensusVote
  nExpiration : Int
  nTimeout : Int
  deriving DecidableEq, Repr

namespace CTransactionLock

def addSignature (lock : CTransactionLock) (cv : CConsensusVote) : CTransactionLock :=
  { lock with vecConsensusVotes := lock.vecConsensusVotes ++ [cv] }

-- Only votes for the height of the lock count; a lock of height zero has no count yet.
def countSignatures (lock : CTransactionLock) : Int :=
  if lock.nBlockHeight = 0 then -1
  else lock.vecConsensusVotes.countP fun v => v.nBlockHeight == lock.nBlockHeight

def complete (lock : CTransactionLock) : Bool :=
  SWIFTTX_SIGNATURES_REQUIRED ≤ lock.countSignatures

def expired (lock : CTransactionLock) (now : Int) : Bool := lock.nExpiration < now

theorem countSignatures_addSignature (lock : CTransactionLock) (cv : CConsensusVote) :
    lock.countSignatures ≤ (lock.addSignature cv).countSignatures := by
  simp only [countSignatures, addSignature, List.countP_append]
  split
  next => exact Int.le_refl _
  next => omega

theorem complete_addSignature (lock : CTransactionLock) (cv : CConsensusVote)
    (complete : lock.complete = true) : (lock.addSignature cv).complete = true := by
  simp only [CTransactionLock.complete, decide_eq_true_eq] at complete ⊢
  exact Int.le_trans complete (countSignatures_addSignature lock cv)

@[simp] theorem complete_expiration (lock : CTransactionLock) (now : Int) :
    ({ lock with nExpiration := now } : CTransactionLock).complete = lock.complete := rfl

end CTransactionLock

inductive SwiftEvent
  | relayRequest (hash : Uint256)
  | relayVote (hash : Uint256)
  | notifyTransactionLock (tx : CTransaction)
  | askForMN (vin : CTxIn)
  | reprocessBlocks (nBlocks : Nat)
  deriving DecidableEq, Repr

structure SwiftState where
  mapTxLockReq : AList fun _ : Uint256 => CTransaction
  mapTxLockReqRejected : AList fun _ : Uint256 => CTransaction
  mapTxLockVote : AList fun _ : Uint256 => CConsensusVote
  mapTxLocks : AList fun _ : Uint256 => CTransactionLock
  mapLockedInputs : AList fun _ : COutPoint => Uint256
  mapUnknownVotes : AList fun _ : Uint256 => Int
  nCompleteTXLocks : Nat
  events : List SwiftEvent

namespace SwiftState

def empty : SwiftState := ⟨∅, ∅, ∅, ∅, ∅, ∅, 0, []⟩

def emit (s : SwiftState) (event : SwiftEvent) : SwiftState := { s with events := s.events ++ [event] }

def setExpiration (s : SwiftState) (txid : Uint256) (nExpiration : Int) : SwiftState :=
  { s with
    mapTxLocks := Assoc.modify s.mapTxLocks txid fun lock => { lock with nExpiration := nExpiration } }

-- Each input that is not locked yet is locked for the transaction id.
def lockInputs (s : SwiftState) (tx : CTransaction) (txid : Uint256) : SwiftState :=
  { s with
    mapLockedInputs := tx.prevouts.foldl (fun map out => Assoc.insertNew map out txid) s.mapLockedInputs }

def lockedForOther [TxHasher] (s : SwiftState) (tx : CTransaction) (txin : CTxIn) : Bool :=
  match s.mapLockedInputs.lookup txin.prevout with
  | some txid => txid != tx.getHash
  | none => false

end SwiftState

end CryptoYen
