import CryptoYen.SwiftTX.LockedInputs
import CryptoYen.SwiftTX.Suppression

set_option autoImplicit false

namespace CryptoYen

-- What GetHash returns of an object: one that is only default-constructed carries the zero hash.
def CTransaction.cachedHash [TxHasher] (tx : CTransaction) : Uint256 :=
  if tx = .empty then 0 else tx.getHash

theorem CTransaction.cachedHash_of_vout [TxHasher] (tx : CTransaction) (outputs : tx.vout ≠ []) :
    tx.cachedHash = tx.getHash := by
  refine if_neg fun same => outputs ?_
  rw [same]
  rfl

namespace SwiftContext

open SwiftState

variable [TxHasher] (ctx : SwiftContext)

theorem resolveConflicts_requests (s : SwiftState) (tx : CTransaction) (txid : Uint256) :
    (ctx.resolveConflicts s tx).mapTxLockReq.lookup txid = s.mapTxLockReq.lookup txid ∨
      (ctx.resolveConflicts s tx).mapTxLockReq.lookup txid =
        (Assoc.insertNew s.mapTxLockReq tx.getHash tx).lookup txid := by
  have checked : (ctx.checkForConflictingLocks s tx).1.mapTxLockReq = s.mapTxLockReq := by
    simp only [checkForConflictingLocks]
    split <;> rfl
  simp only [resolveConflicts]
  split
  next => exact .inl rfl
  next =>
    split
    next =>
      split
      next => exact .inl (by rw [checked])
      next => exact .inr (by simp only [insertRequest, SwiftState.emit, checked])
    next => exact .inl rfl

theorem processRequest_requests (s : SwiftState) (tx : CTransaction) (txid : Uint256) :
    (ctx.processRequest s tx).mapTxLockReq.lookup txid = s.mapTxLockReq.lookup txid ∨
      tx.vout ≠ [] ∧ (ctx.processRequest s tx).mapTxLockReq.lookup txid =
        (Assoc.insertNew s.mapTxLockReq tx.getHash tx).lookup txid := by
  have created := ctx.createNewLock_requests s tx
  simp only [processRequest]
  split
  next taken =>
    have outputs : tx.vout ≠ [] := by
      intro none
      simp [takesRequest, isIXTXValid, none] at taken
    split
    next =>
      have voted := (Quiet.emit (ctx.createNewLock s tx).1 (.relayRequest tx.getHash)).toSameLocks.trans
        (ctx.doConsensusVote_sameLocks _ tx (ctx.createNewLock s tx).2)
      refine .inr ⟨outputs, ?_⟩
      simp only [acceptRequest]
      rw [(ctx.notifyComplete_quiet _ _ _).requests]
      simp only [insertRequest, voted.requests, created]
    next =>
      have refused := ctx.resolveConflicts_requests
        ((insertRejected (ctx.createNewLock s tx).1 tx.getHash tx).lockInputs tx tx.getHash) tx txid
      have unchanged : ((insertRejected (ctx.createNewLock s tx).1 tx.getHash tx).lockInputs tx
          tx.getHash).mapTxLockReq = s.mapTxLockReq := created
      rw [unchanged] at refused
      exact refused.imp_right fun stored => ⟨outputs, stored⟩
  next => exact .inl rfl

theorem completeLock_requests (s : SwiftState) (txid other : Uint256) (lock : CTransactionLock) :
    (ctx.completeLock s txid lock).mapTxLockReq.lookup other =
      if other = txid then some ((s.mapTxLockReq.lookup txid).getD .empty)
      else s.mapTxLockReq.lookup other := by
  have requested : (requestOf s txid).1.mapTxLockReq.lookup other =
      if other = txid then some ((s.mapTxLockReq.lookup txid).getD .empty)
      else s.mapTxLockReq.lookup other := by
    simp only [requestOf]
    split
    next tx stored =>
      split
      next same =>
        subst same
        simp [stored]
      next => rfl
    next absent => simp [Assoc.lookup_insert, absent]
  have checked : (ctx.checkForConflictingLocks (requestOf s txid).1
      (requestOf s txid).2).1.mapTxLockReq = (requestOf s txid).1.mapTxLockReq := by
    simp only [checkForConflictingLocks]
    split <;> rfl
  rw [← requested, ← checked]
  simp only [completeLock]
  split
  next => rfl
  next =>
    rw [(reprocessRejected_quiet _ _).requests]
    exact congrArg _ (ctx.countComplete_quiet _ lock.txHash).requests

def completesLock (s : SwiftState) (vote : CConsensusVote) : Bool :=
  ctx.takesVote s vote && ctx.voteAllowed vote && (ctx.votedLock s vote).complete

omit [TxHasher] in
theorem takesVote_eq (s : SwiftState) (vote : CConsensusVote) :
    (ctx.disabled || (s.mapTxLockVote.lookup vote.getHash).isSome) = !ctx.takesVote s vote := by
  rw [takesVote, ← Bool.not_or, Bool.not_not]
  rfl

-- A vote that completes its lock leaves a request behind, an empty one where there was none.
theorem processVote_requests (s : SwiftState) (vote : CConsensusVote) (txid : Uint256) :
    (ctx.processVote s vote).mapTxLockReq.lookup txid =
      if ctx.completesLock s vote = true ∧ txid = vote.txHash then
        some ((s.mapTxLockReq.lookup txid).getD .empty)
      else s.mapTxLockReq.lookup txid := by
  cases taken : ctx.takesVote s vote with
  | false => simp [processVote, ctx.takesVote_eq, completesLock, taken]
  | true =>
      simp only [processVote, ctx.takesVote_eq, taken, Bool.not_true, Bool.false_eq_true,
        ↓reduceIte]
      rw [(ctx.afterVote_quiet _ _ _).requests]
      simp only [processConsensusVote, completesLock, taken, Bool.true_and]
      cases allowed : ctx.voteAllowed vote with
      | false =>
          simp only [Bool.false_eq_true, ↓reduceIte, Bool.false_and, false_and]
          exact congrArg _ (ctx.refuseVote_quiet _ vote).requests
      | true =>
          have same : ctx.votedLock (recordVote s vote) vote = ctx.votedLock s vote := rfl
          simp only [↓reduceIte, Bool.true_and, same]
          cases complete : (ctx.votedLock s vote).complete with
          | false => simp [addVote, recordVote]
          | true =>
              simp only [↓reduceIte, true_and, ctx.completeLock_requests]
              split
              next here =>
                rw [here]
                rfl
              next => rfl

end SwiftContext

namespace SwiftState

def Honest [TxHasher] (s : SwiftState) : Prop :=
  ∀ txid tx, s.mapTxLockReq.lookup txid = some tx → tx.cachedHash = txid

-- A vote completes a lock only after its request, if its transaction has any id but zero.
def CompletesRequested (s : SwiftState) (label : SwiftLabel) : Prop :=
  match label.2 with
  | .txlvote vote =>
      label.1.completesLock s vote = true →
        (s.mapTxLockReq.lookup vote.txHash).isSome = true ∨ vote.txHash = 0
  | .ix _ => True
  | .submit _ => True
  | .clean => True

instance (s : SwiftState) : ∀ label, Decidable (s.CompletesRequested label)
  | (ctx, .txlvote vote) =>
      inferInstanceAs (Decidable (ctx.completesLock s vote = true →
        (s.mapTxLockReq.lookup vote.txHash).isSome = true ∨ vote.txHash = 0))
  | (_, .ix _) => .isTrue trivial
  | (_, .submit _) => .isTrue trivial
  | (_, .clean) => .isTrue trivial

-- What the wallet submits is no default-constructed transaction.
def SubmitsReal (label : SwiftLabel) : Prop := ∀ tx, label.2 = .submit tx → tx ≠ .empty

variable [TxHasher]

theorem Honest.insertNew {s t : SwiftState} (honest : s.Honest) (tx : CTransaction)
    (real : tx.cachedHash = tx.getHash)
    (stored : ∀ txid, t.mapTxLockReq.lookup txid = s.mapTxLockReq.lookup txid ∨
      t.mapTxLockReq.lookup txid = (Assoc.insertNew s.mapTxLockReq tx.getHash tx).lookup txid) :
    t.Honest := by
  intro txid found present
  cases stored txid with
  | inl same => exact honest txid found (same ▸ present)
  | inr inserted =>
      rw [inserted, Assoc.lookup_insertNew] at present
      split at present
      next same =>
        subst same
        cases before : s.mapTxLockReq.lookup tx.getHash with
        | none =>
            simp only [before, Option.getD_none, Option.some.injEq] at present
            exact present ▸ real
        | some old =>
            simp only [before, Option.getD_some, Option.some.injEq] at present
            exact present ▸ honest _ old before
      next => exact honest txid found present

theorem processVote_honest (s : SwiftState) (ctx : SwiftContext) (vote : CConsensusVote)
    (honest : s.Honest) :
    (ctx.processVote s vote).Honest ↔ s.CompletesRequested (ctx, .txlvote vote) := by
  constructor
  · intro kept completes
    cases stored : s.mapTxLockReq.lookup vote.txHash with
    | some tx => exact .inl rfl
    | none =>
        have phantom := kept vote.txHash .empty (by
          rw [ctx.processVote_requests, if_pos ⟨completes, rfl⟩, stored]
          rfl)
        exact .inr (by simpa [CTransaction.cachedHash] using phantom.symm)
  · intro requested txid tx present
    rw [ctx.processVote_requests] at present
    split at present
    next completes =>
      obtain ⟨completes, rfl⟩ := completes
      cases stored : s.mapTxLockReq.lookup vote.txHash with
      | some old =>
          simp only [stored, Option.getD_some, Option.some.injEq] at present
          exact present ▸ honest _ old stored
      | none =>
          simp only [stored, Option.getD_none, Option.some.injEq] at present
          have zero := (requested completes).resolve_left (by simp [stored])
          rw [← present, zero]
          exact if_pos rfl
    next => exact honest txid tx present

theorem step_honest (s next : SwiftState) (label : SwiftLabel) (real : SubmitsReal label)
    (honest : s.Honest) (stepped : s.step label = some next) :
    s.CompletesRequested label ↔ next.Honest := by
  obtain ⟨ctx, message⟩ := label
  cases stepped
  cases message with
  | txlvote vote => exact (s.processVote_honest ctx vote honest).symm
  | ix tx =>
      refine iff_of_true trivial ?_
      by_cases outputs : tx.vout = []
      · intro txid found present
        cases ctx.processRequest_requests s tx txid with
        | inl same => exact honest txid found (same ▸ present)
        | inr stored => exact absurd outputs stored.1
      · refine honest.insertNew tx (tx.cachedHash_of_vout outputs) fun txid => ?_
        exact (ctx.processRequest_requests s tx txid).imp_right And.right
  | submit tx =>
      refine iff_of_true trivial ?_
      refine honest.insertNew tx (if_neg (real tx rfl)) fun txid => .inr ?_
      simp only [SwiftContext.handle, SwiftContext.submitRequest, SwiftState.emit,
        ctx.createNewLock_requests, SwiftContext.insertRequest]
  | clean =>
      refine iff_of_true trivial fun txid found present => ?_
      by_cases active : ctx.chainActive = []
      · simp only [SwiftContext.handle, SwiftContext.cleanTransactionLocksList, active,
          List.isEmpty_nil, ↓reduceIte] at present
        exact honest txid found present
      · exact honest txid found ((ctx.clean_requests s active txid found).mp present).1

theorem empty_honest : empty.Honest := fun _ _ present => by cases present

end SwiftState

namespace ConflictingRequests

def refusedVotes : List SwiftLabel :=
  [1, 2, 3, 4, 5, 6].map fun masternode =>
    (context 2100, .txlvote { vote masternode [1] with txHash := 100000001 })

end ConflictingRequests

end CryptoYen
