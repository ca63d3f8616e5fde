import CryptoYen.SwiftTX.Runs

set_option autoImplicit false

namespace CryptoYen

namespace SwiftState

def HasConsensus (s : SwiftState) (txid : Uint256) : Prop :=
  ∃ lock, s.mapTxLocks.lookup txid = some lock ∧ lock.complete = true

structure Backed (s : SwiftState) : Prop where
  consensus : ∀ out txid, s.mapLockedInputs.lookup out = some txid → s.HasConsensus txid
  requested : ∀ out txid, s.mapLockedInputs.lookup out = some txid →
    ∃ tx, s.mapTxLockReq.lookup txid = some tx ∧ out ∈ tx.prevouts
  named : ∀ txid lock, s.mapTxLocks.lookup txid = some lock → lock.txHash = txid

theorem empty_backed : empty.Backed :=
  ⟨(fun _ _ locked => by cases locked), (fun _ _ locked => by cases locked),
    (fun _ _ present => by cases present)⟩

structure Keeps (s t : SwiftState) : Prop where
  inputs : ∀ out, t.mapLockedInputs.lookup out = s.mapLockedInputs.lookup out
  consensus : ∀ txid, s.HasConsensus txid → t.HasConsensus txid
  requests : ∀ txid tx, s.mapTxLockReq.lookup txid = some tx → t.mapTxLockReq.lookup txid = some tx
  named : ∀ txid lock, t.mapTxLocks.lookup txid = some lock →
    lock.txHash = txid ∨ ∃ old, s.mapTxLocks.lookup txid = some old ∧ old.txHash = lock.txHash

theorem Backed.keeps {s t : SwiftState} (backed : s.Backed) (keeps : s.Keeps t) : t.Backed where
  consensus := by
    intro out txid locked
    rw [keeps.inputs] at locked
    exact keeps.consensus txid (backed.consensus out txid locked)
  requested := by
    intro out txid locked
    rw [keeps.inputs] at locked
    obtain ⟨tx, stored, spent⟩ := backed.requested out txid locked
    exact ⟨tx, keeps.requests txid tx stored, spent⟩
  named := by
    intro txid lock present
    cases keeps.named txid lock present with
    | inl same => exact same
    | inr kept =>
        obtain ⟨old, before, same⟩ := kept
        rw [← same]
        exact backed.named txid old before

namespace Keeps

theorem of_sameLocks {s t : SwiftState} (same : s.SameLocks t) : s.Keeps t where
  inputs := fun _ => by rw [same.inputs]
  consensus := fun txid held => by simpa [HasConsensus, same.locks] using held
  requests := fun txid tx stored => by simpa [same.requests] using stored
  named := fun txid lock present => .inr ⟨lock, by simpa [same.locks] using present, rfl⟩

theorem refl (s : SwiftState) : s.Keeps s := of_sameLocks (.refl s)

theorem trans {s t u : SwiftState} (first : s.Keeps t) (second : t.Keeps u) : s.Keeps u where
  inputs := fun out => (second.inputs out).trans (first.inputs out)
  consensus := fun txid held => second.consensus txid (first.consensus txid held)
  requests := fun txid tx stored => second.requests txid tx (first.requests txid tx stored)
  named := by
    intro txid lock present
    cases second.named txid lock present with
    | inl same => exact .inl same
    | inr kept =>
        obtain ⟨mid, between, same⟩ := kept
        rw [← same]
        exact first.named txid mid between

theorem insertRequest (s : SwiftState) (txid : Uint256) (tx : CTransaction) :
    s.Keeps (SwiftContext.insertRequest s txid tx) where
  inputs := fun _ => rfl
  consensus := fun _ held => held
  requests := by
    intro other old stored
    simp only [SwiftContext.insertRequest, Assoc.lookup_insertNew]
    by_cases same : other = txid
    · subst same
      simp [stored]
    · simp [same, stored]
  named := fun _ lock present => .inr ⟨lock, present, rfl⟩

theorem insertRejected (s : SwiftState) (txid : Uint256) (tx : CTransaction) :
    s.Keeps (SwiftContext.insertRejected s txid tx) where
  inputs := fun _ => rfl
  consensus := fun _ held => held
  requests := fun _ _ stored => stored
  named := fun _ lock present => .inr ⟨lock, present, rfl⟩

theorem modifyLock (s : SwiftState) (txid : Uint256) (change : CTransactionLock → CTransactionLock)
    (complete : ∀ lock, lock.complete = true → (change lock).complete = true)
    (named : ∀ lock, (change lock).txHash = lock.txHash) :
    s.Keeps { s with mapTxLocks := Assoc.modify s.mapTxLocks txid change } where
  inputs := fun _ => rfl
  consensus := by
    rintro other ⟨lock, present, enough⟩
    by_cases same : other = txid
    · subst same
      exact ⟨change lock, by simp [Assoc.lookup_modify, present], complete lock enough⟩
    · exact ⟨lock, by simpa [Assoc.lookup_modify, same] using present, enough⟩
  requests := fun _ _ stored => stored
  named := by
    intro other lock present
    simp only [Assoc.lookup_modify] at present
    split at present
    next same =>
      subst same
      obtain ⟨old, before, rfl⟩ := Option.map_eq_some_iff.mp present
      exact .inr ⟨old, before, (named old).symm⟩
    next => exact .inr ⟨lock, present, rfl⟩

theorem setExpiration (s : SwiftState) (txid : Uint256) (nExpiration : Int) :
    s.Keeps (s.setExpiration txid nExpiration) :=
  modifyLock s txid _ (fun _ enough => enough) fun _ => rfl

theorem checkForConflictingLocks [TxHasher] (ctx : SwiftContext) (s : SwiftState)
    (tx : CTransaction) : s.Keeps (ctx.checkForConflictingLocks s tx).1 := by
  simp only [SwiftContext.checkForConflictingLocks]
  split
  next => exact refl s
  next => exact (setExpiration s _ _).trans (setExpiration _ _ _)

theorem requestOf (s : SwiftState) (txid : Uint256) :
    s.Keeps (SwiftContext.requestOf s txid).1 := by
  simp only [SwiftContext.requestOf]
  split
  next => exact refl s
  next absent =>
    have same : Assoc.insertNew s.mapTxLockReq txid .empty = s.mapTxLockReq.insert txid .empty := by
      simp [Assoc.insertNew, absent]
    have inserted := insertRequest s txid .empty
    simpa [SwiftContext.insertRequest, same] using inserted

theorem addVote (ctx : SwiftContext) (s : SwiftState) (vote : CConsensusVote) :
    s.Keeps (ctx.addVote s vote) where
  inputs := fun _ => rfl
  consensus := by
    rintro other ⟨lock, present, enough⟩
    by_cases same : other = vote.txHash
    · subst same
      refine ⟨lock.addSignature vote, ?_, lock.complete_addSignature vote enough⟩
      simp [SwiftContext.addVote, SwiftContext.votedLock, present]
    · exact ⟨lock, by simpa [SwiftContext.addVote, Assoc.lookup_insert, same] using present, enough⟩
  requests := fun _ _ stored => stored
  named := by
    intro other lock present
    simp only [SwiftContext.addVote, Assoc.lookup_insert] at present
    split at present
    next same =>
      subst same
      obtain rfl := Option.some.inj present
      cases before : s.mapTxLocks.lookup vote.txHash with
      | none => exact .inl (by simp [SwiftContext.votedLock, before, CTransactionLock.addSignature,
          SwiftContext.newLock])
      | some old => exact .inr ⟨old, rfl, by simp [SwiftContext.votedLock, before,
          CTransactionLock.addSignature]⟩
    next => exact .inr ⟨lock, present, rfl⟩

end Keeps

theorem Backed.lockInputs {s : SwiftState} (backed : s.Backed) (tx : CTransaction)
    (txid : Uint256) (consensus : s.HasConsensus txid)
    (stored : s.mapTxLockReq.lookup txid = some tx) : (s.lockInputs tx txid).Backed where
  consensus := by
    intro out other locked
    simp only [SwiftState.lockInputs, Assoc.lookup_insertAll] at locked
    split at locked
    next spent =>
      cases before : s.mapLockedInputs.lookup out with
      | none =>
          simp only [before, Option.getD_none, Option.some.injEq] at locked
          exact locked ▸ consensus
      | some old =>
          simp only [before, Option.getD_some, Option.some.injEq] at locked
          exact locked ▸ backed.consensus out old before
    next => exact backed.consensus out other locked
  requested := by
    intro out other locked
    simp only [SwiftState.lockInputs, Assoc.lookup_insertAll] at locked
    split at locked
    next spent =>
      cases before : s.mapLockedInputs.lookup out with
      | none =>
          simp only [before, Option.getD_none, Option.some.injEq] at locked
          exact locked ▸ ⟨tx, stored, spent⟩
      | some old =>
          simp only [before, Option.getD_some, Option.some.injEq] at locked
          exact locked ▸ backed.requested out old before
    next => exact backed.requested out other locked
  named := backed.named

theorem Keeps.lockInputs_locked (s : SwiftState) (tx : CTransaction) (txid : Uint256)
    (locked : ∀ out ∈ tx.prevouts, (s.mapLockedInputs.lookup out).isSome = true) :
    s.Keeps (s.lockInputs tx txid) where
  inputs := by
    intro out
    simp only [SwiftState.lockInputs, Assoc.lookup_insertAll]
    split
    next spent =>
      obtain ⟨old, before⟩ := Option.isSome_iff_exists.mp (locked out spent)
      simp [before]
    next => rfl
  consensus := fun _ held => held
  requests := fun _ _ stored => stored
  named := fun _ lock present => .inr ⟨lock, present, rfl⟩

end SwiftState

namespace SwiftContext

open SwiftState

variable (ctx : SwiftContext)

theorem countComplete_quiet (s : SwiftState) (txid : Uint256) :
    s.Quiet (ctx.countComplete s txid) := by
  simp only [countComplete]
  split
  next => exact ⟨⟨rfl, rfl, rfl, rfl⟩, rfl⟩
  next => exact .refl s

theorem reprocessRejected_quiet (s : SwiftState) (txid : Uint256) :
    s.Quiet (reprocessRejected s txid) := by
  simp only [reprocessRejected]
  split
  next => exact .emit s _
  next => exact .refl s

theorem notifyComplete_quiet (s : SwiftState) (txid : Uint256) (tx : CTransaction) :
    s.Quiet (ctx.notifyComplete s txid tx) := by
  simp only [notifyComplete]
  split
  next => exact .emit s _
  next => exact .refl s

theorem notifyVoted_quiet (s : SwiftState) (txid : Uint256) :
    s.Quiet (ctx.notifyVoted s txid) := by
  simp only [notifyVoted]
  split
  next => exact ctx.notifyComplete_quiet s txid _
  next => exact .refl s

theorem limitUnknownVotes_quiet (s : SwiftState) (vote : CConsensusVote) :
    s.Quiet (ctx.limitUnknownVotes s vote).1 := by
  simp only [limitUnknownVotes]
  split <;> exact ⟨⟨rfl, rfl, rfl, rfl⟩, rfl⟩

theorem relayVote_quiet (s : SwiftState) (vote : CConsensusVote) :
    s.Quiet (ctx.relayVote s vote).1 := by
  cases known : knownRequest s vote.txHash with
  | true =>
      simp only [relayVote, known, ↓reduceIte, Bool.false_eq_true]
      exact .emit s _
  | false =>
      have limited := ctx.limitUnknownVotes_quiet s vote
      simp only [relayVote, known, Bool.false_eq_true, ↓reduceIte]
      split
      next => exact limited
      next => exact limited.trans (.emit _ _)

theorem afterVote_quiet (s : SwiftState) (vote : CConsensusVote) (counted : Bool) :
    s.Quiet (ctx.afterVote s vote counted) := by
  cases counted with
  | false => exact ctx.notifyVoted_quiet s vote.txHash
  | true =>
      have relayed := ctx.relayVote_quiet s vote
      simp only [afterVote, ↓reduceIte]
      split
      next => exact relayed
      next => exact relayed.trans (ctx.notifyVoted_quiet _ _)

theorem refuseVote_quiet (s : SwiftState) (vote : CConsensusVote) :
    s.Quiet (ctx.refuseVote s vote) := by
  simp only [refuseVote]
  split
  next => exact .refl s
  next => exact .emit s _

theorem doConsensusVote_sameLocks [TxHasher] (s : SwiftState) (tx : CTransaction)
    (nBlockHeight : Int) : s.SameLocks (ctx.doConsensusVote s tx nBlockHeight) := by
  simp only [doConsensusVote]
  split
  next => exact .refl s
  next =>
    split
    next => exact .refl s
    next =>
      split
      next => exact ⟨rfl, rfl, rfl, rfl⟩
      next => exact .refl s

theorem requestOf_stored (s : SwiftState) (txid : Uint256) :
    (requestOf s txid).1.mapTxLockReq.lookup txid = some (requestOf s txid).2 := by
  simp only [requestOf]
  split
  next stored => exact stored
  next => simp

theorem completeLock_backed [TxHasher] (s : SwiftState) (txid : Uint256)
    (lock : CTransactionLock) (backed : s.Backed) (consensus : s.HasConsensus txid) :
    (ctx.completeLock s txid lock).Backed := by
  have requested := Keeps.requestOf s txid
  have checked := requested.trans
    (Keeps.checkForConflictingLocks ctx (requestOf s txid).1 (requestOf s txid).2)
  simp only [completeLock]
  split
  next => exact backed.keeps checked
  next =>
    have counted := checked.trans
      (Keeps.of_sameLocks (ctx.countComplete_quiet _ lock.txHash).toSameLocks)
    refine Backed.keeps ?_ (.of_sameLocks (reprocessRejected_quiet _ _).toSameLocks)
    refine (backed.keeps counted).lockInputs _ _ (counted.consensus txid consensus) ?_
    have later := (Keeps.checkForConflictingLocks ctx (requestOf s txid).1 (requestOf s txid).2).trans
      (Keeps.of_sameLocks (ctx.countComplete_quiet _ lock.txHash).toSameLocks)
    exact later.requests txid _ (requestOf_stored s txid)

theorem processConsensusVote_backed [TxHasher] (s : SwiftState) (vote : CConsensusVote)
    (backed : s.Backed) : (ctx.processConsensusVote s vote).1.Backed := by
  have added := backed.keeps (Keeps.addVote ctx s vote)
  simp only [processConsensusVote]
  split
  next =>
    split
    next complete =>
      refine ctx.completeLock_backed _ _ _ added ⟨ctx.votedLock s vote, ?_, complete⟩
      simp [addVote]
    next => exact added
  next => exact backed.keeps (.of_sameLocks (ctx.refuseVote_quiet s vote).toSameLocks)

theorem processVote_backed [TxHasher] (s : SwiftState) (vote : CConsensusVote)
    (backed : s.Backed) : (ctx.processVote s vote).Backed := by
  simp only [processVote]
  split
  next => exact backed
  next =>
    have recorded : (recordVote s vote).Backed := backed.keeps (.of_sameLocks ⟨rfl, rfl, rfl, rfl⟩)
    exact (ctx.processConsensusVote_backed _ vote recorded).keeps
      (.of_sameLocks (ctx.afterVote_quiet _ _ _).toSameLocks)

end SwiftContext

end CryptoYen
