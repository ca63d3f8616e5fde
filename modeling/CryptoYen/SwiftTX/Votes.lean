import CryptoYen.SwiftTX.Requests

set_option autoImplicit false

namespace CryptoYen

def CTransaction.empty : CTransaction := ⟨1, [], [], 0⟩

namespace SwiftContext

variable (ctx : SwiftContext)

def voteAllowed (vote : CConsensusVote) : Bool :=
  let n := ctx.getMasternodeRank vote.vinMasternode vote.nBlockHeight
  n != -1 && n ≤ SWIFTTX_SIGNATURES_TOTAL && ctx.signatureValid vote

def refuseVote (s : SwiftState) (vote : CConsensusVote) : SwiftState :=
  let n := ctx.getMasternodeRank vote.vinMasternode vote.nBlockHeight
  if n ≠ -1 ∧ SWIFTTX_SIGNATURES_TOTAL < n then s else s.emit (.askForMN vote.vinMasternode)

-- The lock that receives a vote; one that is made here has no height yet.
def votedLock (s : SwiftState) (vote : CConsensusVote) : CTransactionLock :=
  ((s.mapTxLocks.lookup vote.txHash).getD (ctx.newLock vote.txHash 0)).addSignature vote

def addVote (s : SwiftState) (vote : CConsensusVote) : SwiftState :=
  { s with mapTxLocks := s.mapTxLocks.insert vote.txHash (ctx.votedLock s vote) }

-- mapTxLockReq[txHash] makes an empty transaction where there is no request.
def requestOf (s : SwiftState) (txid : Uint256) : SwiftState × CTransaction :=
  match s.mapTxLockReq.lookup txid with
  | some tx => (s, tx)
  | none => ({ s with mapTxLockReq := s.mapTxLockReq.insert txid .empty }, .empty)

def countComplete (s : SwiftState) (txid : Uint256) : SwiftState :=
  if ctx.updatedTransaction txid then { s with nCompleteTXLocks := s.nCompleteTXLocks + 1 } else s

def reprocessRejected (s : SwiftState) (txid : Uint256) : SwiftState :=
  if (s.mapTxLockReqRejected.lookup txid).isSome then s.emit (.reprocessBlocks 15) else s

def completeLock [TxHasher] (s : SwiftState) (txid : Uint256) (lock : CTransactionLock) :
    SwiftState :=
  let (requested, tx) := requestOf s txid
  let (checked, conflict) := ctx.checkForConflictingLocks requested tx
  if conflict then checked
  else reprocessRejected ((ctx.countComplete checked lock.txHash).lockInputs tx txid) lock.txHash

def processConsensusVote [TxHasher] (s : SwiftState) (vote : CConsensusVote) : SwiftState × Bool :=
  if ctx.voteAllowed vote then
    let lock := ctx.votedLock s vote
    let added := ctx.addVote s vote
    if lock.complete then (ctx.completeLock added vote.txHash lock, true) else (added, true)
  else (ctx.refuseVote s vote, false)

def averageVoteTime (s : SwiftState) : Int :=
  (Assoc.sumBy id s.mapUnknownVotes).tdiv s.mapUnknownVotes.entries.length

/-- Votes that arrive before their transaction are limited to the rate of the network: the state
after the test and whether the masternode is taken for a spammer. -/
def limitUnknownVotes (s : SwiftState) (vote : CConsensusVote) : SwiftState × Bool :=
  let masternode := vote.vinMasternode.prevout.hash
  let limit := ctx.getTime + 60 * 10
  let tracked :=
    { s with mapUnknownVotes := Assoc.insertNew s.mapUnknownVotes masternode limit }
  let last := (tracked.mapUnknownVotes.lookup masternode).getD 0
  if ctx.getTime < last ∧ 60 * 10 < last - averageVoteTime tracked then (tracked, true)
  else ({ tracked with mapUnknownVotes := tracked.mapUnknownVotes.insert masternode limit }, false)

def relayVote (s : SwiftState) (vote : CConsensusVote) : SwiftState × Bool :=
  let (limited, spamming) :=
    if knownRequest s vote.txHash then (s, false) else ctx.limitUnknownVotes s vote
  if spamming then (limited, true) else (limited.emit (.relayVote vote.getHash), false)

def notifyVoted (s : SwiftState) (txid : Uint256) : SwiftState :=
  match s.mapTxLockReq.lookup txid with
  | some tx => ctx.notifyComplete s txid tx
  | none => s

def afterVote (s : SwiftState) (vote : CConsensusVote) (counted : Bool) : SwiftState :=
  let (relayed, spamming) := if counted then ctx.relayVote s vote else (s, false)
  if spamming then relayed else ctx.notifyVoted relayed vote.txHash

def recordVote (s : SwiftState) (vote : CConsensusVote) : SwiftState :=
  { s with mapTxLockVote := s.mapTxLockVote.insert vote.getHash vote }

/-- The branch of ProcessMessageSwiftTX for "txlvote": a vote is recorded before it is checked. -/
def processVote [TxHasher] (s : SwiftState) (vote : CConsensusVote) : SwiftState :=
  if ctx.disabled || (s.mapTxLockVote.lookup vote.getHash).isSome then s
  else
    let (processed, counted) := ctx.processConsensusVote (recordVote s vote) vote
    ctx.afterVote processed vote counted

end SwiftContext

structure SwiftState.SameLocks (s t : SwiftState) : Prop where
  requests : t.mapTxLockReq = s.mapTxLockReq
  rejected : t.mapTxLockReqRejected = s.mapTxLockReqRejected
  locks : t.mapTxLocks = s.mapTxLocks
  inputs : t.mapLockedInputs = s.mapLockedInputs

structure SwiftState.Quiet (s t : SwiftState) : Prop extends SwiftState.SameLocks s t where
  votes : t.mapTxLockVote = s.mapTxLockVote

namespace SwiftState

theorem SameLocks.refl (s : SwiftState) : s.SameLocks s := ⟨rfl, rfl, rfl, rfl⟩

theorem SameLocks.trans {s t u : SwiftState} (first : s.SameLocks t) (second : t.SameLocks u) :
    s.SameLocks u :=
  ⟨second.requests.trans first.requests, second.rejected.trans first.rejected,
    second.locks.trans first.locks, second.inputs.trans first.inputs⟩

theorem Quiet.refl (s : SwiftState) : s.Quiet s := ⟨.refl s, rfl⟩

theorem Quiet.trans {s t u : SwiftState} (first : s.Quiet t) (second : t.Quiet u) : s.Quiet u :=
  ⟨first.toSameLocks.trans second.toSameLocks, second.votes.trans first.votes⟩

theorem Quiet.emit (s : SwiftState) (event : SwiftEvent) : s.Quiet (s.emit event) :=
  ⟨⟨rfl, rfl, rfl, rfl⟩, rfl⟩

end SwiftState

end CryptoYen
