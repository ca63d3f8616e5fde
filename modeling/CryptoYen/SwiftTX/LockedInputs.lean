import CryptoYen.Consensus.CheckBlock
import CryptoYen.SwiftTX.Backing

set_option autoImplicit false

namespace CryptoYen

namespace SwiftContext

open SwiftState

variable [TxHasher] (ctx : SwiftContext)

def keepsSignatures (s : SwiftState) (tx : CTransaction) : Prop :=
  ∀ lock nBlockHeight, s.mapTxLocks.lookup tx.getHash = some lock → lock.complete = true →
    ctx.lockHeight tx = some nBlockHeight →
    ({ lock with nBlockHeight := nBlockHeight } : CTransactionLock).complete = true

-- A refused request finds its inputs locked, or it has its signatures and nobody in its way.
def RefusedSafely (s : SwiftState) (tx : CTransaction) : Prop :=
  (∀ out ∈ tx.prevouts, (s.mapLockedInputs.lookup out).isSome = true) ∨
    (s.HasConsensus tx.getHash ∧ ∀ txin ∈ tx.vin, s.lockedForOther tx txin = false)

-- The step locks no input without consensus: a request that the memory pool refuses, and a lock
-- whose inputs are locked when its height is computed again.
def LocksByConsensus (s : SwiftState) (label : SwiftLabel) : Prop :=
  match label.2 with
  | .ix tx =>
      label.1.takesRequest s tx = true →
        label.1.accepts (label.1.createNewLock s tx).1 tx = false →
        RefusedSafely (label.1.createNewLock s tx).1 tx
  | .submit tx =>
      (∃ out, s.mapLockedInputs.lookup out = some tx.getHash) → label.1.keepsSignatures s tx
  | .txlvote _ => True
  | .clean => True

theorem createNewLock_requests (s : SwiftState) (tx : CTransaction) :
    (ctx.createNewLock s tx).1.mapTxLockReq = s.mapTxLockReq := by
  simp only [createNewLock]
  split
  next => rfl
  next => split <;> rfl

theorem createNewLock_inputs (s : SwiftState) (tx : CTransaction) :
    (ctx.createNewLock s tx).1.mapLockedInputs = s.mapLockedInputs := by
  simp only [createNewLock]
  split
  next => rfl
  next => split <;> rfl

theorem createNewLock_lookup (s : SwiftState) (tx : CTransaction) (txid : Uint256)
    (other : txid ≠ tx.getHash) :
    (ctx.createNewLock s tx).1.mapTxLocks.lookup txid = s.mapTxLocks.lookup txid := by
  simp only [createNewLock]
  split
  next => rfl
  next => split <;> simp [other]

theorem createNewLock_cases (s : SwiftState) (tx : CTransaction) (lock : CTransactionLock)
    (present : (ctx.createNewLock s tx).1.mapTxLocks.lookup tx.getHash = some lock) :
    s.mapTxLocks.lookup tx.getHash = some lock ∨
      ∃ nBlockHeight, ctx.lockHeight tx = some nBlockHeight ∧
        (lock = ctx.newLock tx.getHash nBlockHeight ∨
          ∃ old, s.mapTxLocks.lookup tx.getHash = some old ∧
            lock = { old with nBlockHeight := nBlockHeight }) := by
  simp only [createNewLock] at present
  split at present
  next => exact .inl present
  next nBlockHeight height =>
    split at present
    next => exact .inr ⟨nBlockHeight, height, .inl (by simpa using present.symm)⟩
    next old before =>
      exact .inr ⟨nBlockHeight, height, .inr ⟨old, before, by simpa using present.symm⟩⟩

theorem createNewLock_consensus (s : SwiftState) (tx : CTransaction)
    (kept : ctx.keepsSignatures s tx) (txid : Uint256) (consensus : s.HasConsensus txid) :
    (ctx.createNewLock s tx).1.HasConsensus txid := by
  obtain ⟨lock, present, complete⟩ := consensus
  by_cases same : txid = tx.getHash
  · subst same
    simp only [createNewLock]
    split
    next => exact ⟨lock, present, complete⟩
    next nBlockHeight height =>
      rw [present]
      exact ⟨_, by simp, kept lock nBlockHeight present complete height⟩
  · exact ⟨lock, by rw [ctx.createNewLock_lookup s tx txid same, present], complete⟩

theorem createNewLock_backed (s : SwiftState) (tx : CTransaction) (backed : s.Backed)
    (kept : (∃ out, s.mapLockedInputs.lookup out = some tx.getHash) → ctx.keepsSignatures s tx) :
    (ctx.createNewLock s tx).1.Backed where
  consensus := by
    intro out txid locked
    rw [ctx.createNewLock_inputs s tx] at locked
    have before := backed.consensus out txid locked
    by_cases same : txid = tx.getHash
    · exact ctx.createNewLock_consensus s tx (kept ⟨out, same ▸ locked⟩) txid before
    · obtain ⟨lock, present, complete⟩ := before
      exact ⟨lock, by rw [ctx.createNewLock_lookup s tx txid same, present], complete⟩
  requested := by
    intro out txid locked
    rw [ctx.createNewLock_inputs s tx] at locked
    rw [ctx.createNewLock_requests s tx]
    exact backed.requested out txid locked
  named := by
    intro txid lock present
    by_cases same : txid = tx.getHash
    · subst same
      rcases ctx.createNewLock_cases s tx lock present with before | ⟨_, _, rfl | ⟨old, before, rfl⟩⟩
      · exact backed.named _ lock before
      · rfl
      · exact backed.named _ old before
    · rw [ctx.createNewLock_lookup s tx txid same] at present
      exact backed.named txid lock present

theorem resolveConflicts_keeps (s : SwiftState) (tx : CTransaction) :
    s.Keeps (ctx.resolveConflicts s tx) := by
  simp only [resolveConflicts]
  split
  next => exact .refl s
  next =>
    split
    next =>
      have checked := Keeps.checkForConflictingLocks ctx s tx
      split
      next => exact checked
      next =>
        refine Keeps.trans ?_ (.insertRequest _ _ _)
        exact checked.trans (.of_sameLocks (Quiet.emit _ _).toSameLocks)
    next => exact .refl s

theorem acceptRequest_keeps (s : SwiftState) (tx : CTransaction) (nBlockHeight : Int) :
    s.Keeps (ctx.acceptRequest s tx nBlockHeight) := by
  have voted := (Quiet.emit s (.relayRequest tx.getHash)).toSameLocks.trans
    (ctx.doConsensusVote_sameLocks (s.emit (.relayRequest tx.getHash)) tx nBlockHeight)
  exact ((Keeps.of_sameLocks voted).trans (.insertRequest _ _ _)).trans
    (.of_sameLocks (ctx.notifyComplete_quiet _ _ _).toSameLocks)

theorem refuseRequest_backed (s : SwiftState) (tx : CTransaction) (backed : s.Backed)
    (unknown : s.mapTxLockReq.lookup tx.getHash = none) (safe : RefusedSafely s tx) :
    (ctx.refuseRequest s tx).Backed := by
  have rejected := Keeps.insertRejected s tx.getHash tx
  cases safe with
  | inl locked =>
      have unchanged := rejected.trans (Keeps.lockInputs_locked _ tx tx.getHash locked)
      exact backed.keeps (unchanged.trans (ctx.resolveConflicts_keeps _ tx))
  | inr safe =>
      obtain ⟨⟨lock, present, complete⟩, free⟩ := safe
      let locked := (insertRejected s tx.getHash tx).lockInputs tx tx.getHash
      have unopposed : tx.vin.find? (locked.lockedForOther tx) = none := by
        refine List.find?_eq_none.mpr fun txin member => ?_
        have here := free txin member
        have spent : txin.prevout ∈ tx.prevouts := List.mem_map_of_mem member
        simp only [locked, lockedForOther, SwiftState.lockInputs, insertRejected,
          Assoc.lookup_insertAll, spent, ↓reduceIte] at here ⊢
        cases before : s.mapLockedInputs.lookup txin.prevout with
        | none => simp
        | some txid => simpa [before] using here
      have resolved : ctx.refuseRequest s tx =
          (insertRequest ((insertRejected s tx.getHash tx).emit (.reprocessBlocks 15)) tx.getHash
            tx).lockInputs tx tx.getHash := by
        have there : locked.mapTxLocks.lookup tx.getHash = some lock := present
        simp only [refuseRequest, resolveConflicts, there, complete, ↓reduceIte,
          checkForConflictingLocks, unopposed, Bool.false_eq_true, locked]
        rfl
      rw [resolved]
      have stored := rejected.trans
        ((Keeps.of_sameLocks (Quiet.emit _ (.reprocessBlocks 15)).toSameLocks).trans
          (.insertRequest _ tx.getHash tx))
      refine (backed.keeps stored).lockInputs tx _ (stored.consensus _ ⟨lock, present, complete⟩) ?_
      simp [insertRequest, Assoc.lookup_insertNew, insertRejected, SwiftState.emit, unknown]

theorem processRequest_backed (s : SwiftState) (tx : CTransaction) (backed : s.Backed)
    (safe : ctx.takesRequest s tx = true → ctx.accepts (ctx.createNewLock s tx).1 tx = false →
      RefusedSafely (ctx.createNewLock s tx).1 tx) : (ctx.processRequest s tx).Backed := by
  simp only [processRequest]
  split
  next taken =>
    have unknown : s.mapTxLockReq.lookup tx.getHash = none := by
      simp only [takesRequest, knownRequest, Bool.and_eq_true, Bool.not_eq_true',
        Bool.or_eq_false_iff, Option.isSome_eq_false_iff, Option.isNone_iff_eq_none] at taken
      exact taken.1.1.2.1
    have created := ctx.createNewLock_backed s tx backed fun ⟨out, locked⟩ => by
      obtain ⟨other, stored, _⟩ := backed.requested out _ locked
      simp [unknown] at stored
    split
    next => exact created.keeps (ctx.acceptRequest_keeps _ tx _)
    next refused =>
      refine ctx.refuseRequest_backed _ tx created ?_ (safe taken (by simpa using refused))
      rw [ctx.createNewLock_requests s tx, unknown]
  next => exact backed

theorem submitRequest_backed (s : SwiftState) (tx : CTransaction) (backed : s.Backed)
    (kept : (∃ out, s.mapLockedInputs.lookup out = some tx.getHash) → ctx.keepsSignatures s tx) :
    (ctx.submitRequest s tx).Backed := by
  have stored := backed.keeps (Keeps.insertRequest s tx.getHash tx)
  exact (ctx.createNewLock_backed _ tx stored kept).keeps (.of_sameLocks (Quiet.emit _ _).toSameLocks)

omit [TxHasher] in
theorem clean_backed (s : SwiftState) (backed : s.Backed) :
    (ctx.cleanTransactionLocksList s).Backed := by
  by_cases active : ctx.chainActive = []
  · simpa [cleanTransactionLocksList, active] using backed
  · -- the lock behind a remaining entry has not expired, or the sweep had freed its input
    have alive : ∀ out txid, (ctx.cleanTransactionLocksList s).mapLockedInputs.lookup out = some txid →
        s.mapLockedInputs.lookup out = some txid ∧
          ∀ lock, s.mapTxLocks.lookup txid = some lock → lock.expired ctx.getTime = false := by
      intro out txid locked
      obtain ⟨before, spared⟩ := (ctx.clean_inputs s active out txid).mp locked
      refine ⟨before, fun lock present => Bool.not_eq_true _ ▸ fun expires => ?_⟩
      obtain ⟨tx, stored, spent⟩ := backed.requested out txid before
      have name := backed.named txid lock present
      exact spared ⟨txid, lock, tx, present, expires, name ▸ stored, spent⟩
    constructor
    · intro out txid locked
      obtain ⟨before, waiting⟩ := alive out txid locked
      obtain ⟨lock, present, complete⟩ := backed.consensus out txid before
      exact ⟨lock, (ctx.clean_locks s active txid lock).mpr ⟨present, waiting lock present⟩, complete⟩
    · intro out txid locked
      obtain ⟨before, waiting⟩ := alive out txid locked
      obtain ⟨tx, stored, spent⟩ := backed.requested out txid before
      refine ⟨tx, (ctx.clean_requests s active txid tx).mpr ⟨stored, ?_⟩, spent⟩
      intro key lock present name
      have same := backed.named key lock present
      exact waiting lock (by rw [← name, same]; exact present)
    · intro txid lock present
      exact backed.named txid lock ((ctx.clean_locks s active txid lock).mp present).1

end SwiftContext

namespace SwiftState

variable [TxHasher]

theorem step_backed (s next : SwiftState) (label : SwiftLabel) (backed : s.Backed)
    (safe : SwiftContext.LocksByConsensus s label) (stepped : s.step label = some next) :
    next.Backed := by
  obtain ⟨ctx, message⟩ := label
  cases stepped
  cases message with
  | ix tx => exact ctx.processRequest_backed s tx backed safe
  | txlvote vote => exact ctx.processVote_backed s vote backed
  | submit tx => exact ctx.submitRequest_backed s tx backed safe
  | clean => exact ctx.clean_backed s backed

theorem along_handle (s : SwiftState) (ctx : SwiftContext) (message : SwiftMessage)
    (rest : List SwiftLabel) (here : SwiftContext.LocksByConsensus s (ctx, message))
    (later : Machine.Along SwiftContext.LocksByConsensus step (ctx.handle s message) rest) :
    Machine.Along SwiftContext.LocksByConsensus step s ((ctx, message) :: rest) :=
  Machine.along_cons _ step s _ _ rest rfl here later

omit [TxHasher] in
def InputsBacked (s : SwiftState) : Prop :=
  ∀ out txid, s.mapLockedInputs.lookup out = some txid →
    ∃ lock, s.mapTxLocks.lookup txid = some lock ∧
      SWIFTTX_SIGNATURES_REQUIRED ≤ lock.countSignatures

-- Where CheckBlock refuses a transaction, masternodes have voted for another one.
def RefusesByConsensus (s : SwiftState) : Prop :=
  ∀ (ctx : BlockContext) (tx : CTransaction),
    (∀ out, ctx.mapLockedInputs out = s.mapLockedInputs.lookup out) →
    checkLockedInputs ctx tx ≠ .ok () →
    ∃ txin ∈ tx.vin, ∃ txid lock, s.mapLockedInputs.lookup txin.prevout = some txid ∧
      txid ≠ tx.getHash ∧ s.mapTxLocks.lookup txid = some lock ∧
      SWIFTTX_SIGNATURES_REQUIRED ≤ lock.countSignatures

theorem InputsBacked.refuses {s : SwiftState} (backed : s.InputsBacked) :
    s.RefusesByConsensus := by
  intro ctx tx same refused
  simp only [checkLockedInputs, ne_eq, require_ok, Bool.or_eq_true, not_or, List.all_eq_true,
    not_forall] at refused
  obtain ⟨_, txin, member, elsewhere⟩ := refused
  simp only [lockedElsewhere, same, Bool.not_eq_true', Bool.not_eq_false] at elsewhere
  split at elsewhere
  next => cases elsewhere
  next txid locked =>
    obtain ⟨lock, present, signatures⟩ := backed txin.prevout txid locked
    exact ⟨txin, member, txid, lock, locked, by simpa using elsewhere, present, signatures⟩

omit [TxHasher] in
theorem Backed.inputsBacked {s : SwiftState} (backed : s.Backed) : s.InputsBacked := by
  intro out txid locked
  obtain ⟨lock, present, complete⟩ := backed.consensus out txid locked
  exact ⟨lock, present, of_decide_eq_true complete⟩

end SwiftState

namespace ConflictingRequests

def refusedRun : List SwiftLabel := [(context 2000, .ix second)]

def votes : List SwiftLabel :=
  [1, 2, 3, 4, 5, 6].map fun masternode => (context 1100, .txlvote (vote masternode [1]))

def votedRun : List SwiftLabel := (context 1000, .ix first) :: votes ++ [(context 2000, .clean)]

end ConflictingRequests

end CryptoYen
