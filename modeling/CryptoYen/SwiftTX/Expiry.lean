import CryptoYen.SwiftTX.Votes

set_option autoImplicit false

namespace CryptoYen

namespace SwiftState

-- Erasing a request takes its inputs out of mapLockedInputs, whoever they are locked for.
def eraseRequest (s : SwiftState) (lock : CTransactionLock) : SwiftState :=
  match s.mapTxLockReq.lookup lock.txHash with
  | none => s
  | some tx =>
      { s with
        mapLockedInputs := tx.prevouts.foldl (fun map out => map.erase out) s.mapLockedInputs
        mapTxLockReq := s.mapTxLockReq.erase lock.txHash
        mapTxLockReqRejected := s.mapTxLockReqRejected.erase lock.txHash
        mapTxLockVote :=
          (lock.vecConsensusVotes.map CConsensusVote.getHash).foldl (fun map hash => map.erase hash)
            s.mapTxLockVote }

def visitLock (now : Int) (s : SwiftState) (item : Sigma fun _ : Uint256 => CTransactionLock) :
    SwiftState :=
  if item.2.expired now then
    { s.eraseRequest item.2 with mapTxLocks := s.mapTxLocks.erase item.1 }
  else s

end SwiftState

def SwiftContext.cleanTransactionLocksList (ctx : SwiftContext) (s : SwiftState) : SwiftState :=
  if ctx.chainActive.isEmpty then s
  else s.mapTxLocks.entries.foldl (SwiftState.visitLock ctx.getTime) s

namespace SwiftState

def Frees (s : SwiftState) (now : Int) (out : COutPoint) : Prop :=
  ∃ txid lock tx, s.mapTxLocks.lookup txid = some lock ∧ lock.expired now = true ∧
    s.mapTxLockReq.lookup lock.txHash = some tx ∧ out ∈ tx.prevouts

abbrev LockItem := Sigma fun _ : Uint256 => CTransactionLock

variable (now : Int) (s : SwiftState) (items : List LockItem)

theorem visitLocks_requests (txid : Uint256) :
    (items.foldl (visitLock now) s).mapTxLockReq.lookup txid =
      if ∃ item ∈ items, item.2.expired now = true ∧ item.2.txHash = txid then none
      else s.mapTxLockReq.lookup txid := by
  induction items generalizing s with
  | nil => simp
  | cons item rest ih =>
      have visited : (visitLock now s item).mapTxLockReq.lookup txid =
          if item.2.expired now = true ∧ item.2.txHash = txid then none
          else s.mapTxLockReq.lookup txid := by
        by_cases expires : item.2.expired now = true
        · by_cases same : item.2.txHash = txid
          · subst same
            cases stored : s.mapTxLockReq.lookup item.2.txHash <;>
              simp [visitLock, expires, eraseRequest, stored]
          · cases stored : s.mapTxLockReq.lookup item.2.txHash <;>
              simp [visitLock, expires, eraseRequest, stored, same, Ne.symm same]
        · simp [visitLock, expires]
      rw [List.foldl_cons, ih, visited]
      by_cases later : ∃ item ∈ rest, item.2.expired now = true ∧ item.2.txHash = txid <;>
        simp [later]

theorem visitLocks_locks (txid : Uint256) :
    (items.foldl (visitLock now) s).mapTxLocks.lookup txid =
      if ∃ item ∈ items, item.2.expired now = true ∧ item.1 = txid then none
      else s.mapTxLocks.lookup txid := by
  have erased : (items.foldl (visitLock now) s).mapTxLocks =
      items.foldl (fun map item => if item.2.expired now then map.erase item.1 else map)
        s.mapTxLocks := by
    refine (List.foldl_hom mapTxLocks fun state item => ?_).symm
    unfold visitLock
    split <;> rfl
  rw [erased, Assoc.lookup_eraseWhere (fun item : LockItem => item.2.expired now) Sigma.fst]

def visitFrees (item : LockItem) (out : COutPoint) : Prop :=
  item.2.expired now = true ∧
    ∃ tx, s.mapTxLockReq.lookup item.2.txHash = some tx ∧ out ∈ tx.prevouts

theorem visitLock_inputs (item : LockItem) (out : COutPoint) (txid : Uint256) :
    (visitLock now s item).mapLockedInputs.lookup out = some txid ↔
      s.mapLockedInputs.lookup out = some txid ∧ ¬ s.visitFrees now item out := by
  by_cases expires : item.2.expired now = true
  · cases stored : s.mapTxLockReq.lookup item.2.txHash with
    | none => simp [visitLock, visitFrees, expires, eraseRequest, stored]
    | some tx =>
        by_cases spent : out ∈ tx.prevouts <;>
          simp [visitLock, visitFrees, expires, eraseRequest, stored, spent,
            Assoc.lookup_eraseAll]
  · simp [visitLock, visitFrees, expires]

theorem visitFrees_visitLock (first item : LockItem) (out : COutPoint) :
    visitFrees now (visitLock now s first) item out ↔
      s.visitFrees now item out ∧
        ¬ (first.2.expired now = true ∧ first.2.txHash = item.2.txHash) := by
  have request := visitLocks_requests now s [first] item.2.txHash
  simp only [List.foldl_cons, List.foldl_nil, List.mem_singleton, exists_eq_left] at request
  by_cases covered : first.2.expired now = true ∧ first.2.txHash = item.2.txHash <;>
    simp [visitFrees, request, covered]

theorem visitLocks_inputs (out : COutPoint) (txid : Uint256) :
    (items.foldl (visitLock now) s).mapLockedInputs.lookup out = some txid ↔
      s.mapLockedInputs.lookup out = some txid ∧ ∀ item ∈ items, ¬ s.visitFrees now item out := by
  induction items generalizing s with
  | nil => simp
  | cons item rest ih =>
      rw [List.foldl_cons, ih, visitLock_inputs, and_assoc, List.forall_mem_cons]
      refine and_congr_right fun _ => and_congr_right fun kept => forall₂_congr fun other _ => ?_
      rw [visitFrees_visitLock, not_and, not_not]
      constructor
      · intro covered frees
        -- an earlier visit for the same request has taken the same outpoints
        obtain ⟨expires, same⟩ := covered frees
        exact kept ⟨expires, by rw [same]; exact frees.2⟩
      · intro spared frees
        exact absurd frees spared

def visitErases (item : LockItem) (hash : Uint256) : Prop :=
  item.2.expired now = true ∧ (s.mapTxLockReq.lookup item.2.txHash).isSome = true ∧
    hash ∈ item.2.vecConsensusVotes.map CConsensusVote.getHash

theorem visitLock_votes (item : LockItem) (hash : Uint256) (vote : CConsensusVote) :
    (visitLock now s item).mapTxLockVote.lookup hash = some vote ↔
      s.mapTxLockVote.lookup hash = some vote ∧ ¬ s.visitErases now item hash := by
  by_cases expires : item.2.expired now = true
  · cases stored : s.mapTxLockReq.lookup item.2.txHash with
    | none => simp [visitLock, visitErases, expires, eraseRequest, stored]
    | some tx =>
        simp only [visitLock, expires, ↓reduceIte, eraseRequest, stored, Assoc.lookup_eraseAll,
          visitErases, Option.isSome_some, true_and]
        split
        next voted => simp [voted]
        next unvoted => simp [unvoted]
  · simp [visitLock, visitErases, expires]

theorem visitErases_visitLock (first item : LockItem) (hash : Uint256)
    (other : first.2.txHash ≠ item.2.txHash) :
    visitErases now (visitLock now s first) item hash ↔ s.visitErases now item hash := by
  have request := visitLocks_requests now s [first] item.2.txHash
  simp only [List.foldl_cons, List.foldl_nil, List.mem_singleton, exists_eq_left, other, and_false,
    ↓reduceIte] at request
  rw [visitErases, request, visitErases]

theorem visitLocks_votes (distinct : (items.map fun item => item.2.txHash).Nodup) (hash : Uint256)
    (vote : CConsensusVote) :
    (items.foldl (visitLock now) s).mapTxLockVote.lookup hash = some vote ↔
      s.mapTxLockVote.lookup hash = some vote ∧ ∀ item ∈ items, ¬ s.visitErases now item hash := by
  induction items generalizing s with
  | nil => simp
  | cons item rest ih =>
      rw [List.map_cons, List.nodup_cons] at distinct
      rw [List.foldl_cons, ih _ distinct.2, visitLock_votes, and_assoc, List.forall_mem_cons]
      refine and_congr_right fun _ => and_congr_right fun _ => forall₂_congr fun other member => ?_
      rw [visitErases_visitLock]
      exact fun same => distinct.1 (same ▸ List.mem_map_of_mem member)

theorem visitLocks_rejected (txid : Uint256) :
    (items.foldl (visitLock now) s).mapTxLockReqRejected.lookup txid =
      if (s.mapTxLockReq.lookup txid).isSome = true ∧
          ∃ item ∈ items, item.2.expired now = true ∧ item.2.txHash = txid then none
      else s.mapTxLockReqRejected.lookup txid := by
  induction items generalizing s with
  | nil => simp
  | cons item rest ih =>
      have request := visitLocks_requests now s [item] txid
      simp only [List.foldl_cons, List.foldl_nil, List.mem_singleton, exists_eq_left] at request
      have visited : (visitLock now s item).mapTxLockReqRejected.lookup txid =
          if (s.mapTxLockReq.lookup txid).isSome = true ∧ item.2.expired now = true ∧
            item.2.txHash = txid then none
          else s.mapTxLockReqRejected.lookup txid := by
        by_cases expires : item.2.expired now = true
        · by_cases same : item.2.txHash = txid
          · subst same
            cases stored : s.mapTxLockReq.lookup item.2.txHash <;>
              simp [visitLock, expires, eraseRequest, stored]
          · cases stored : s.mapTxLockReq.lookup item.2.txHash <;>
              simp [visitLock, expires, eraseRequest, stored, same, Ne.symm same]
        · simp [visitLock, expires]
      rw [List.foldl_cons, ih, visited, request]
      by_cases here : item.2.expired now = true ∧ item.2.txHash = txid
      · by_cases stored : (s.mapTxLockReq.lookup txid).isSome = true <;> simp [here, stored]
      · simp only [here, ↓reduceIte, and_false, List.mem_cons, exists_eq_or_imp, false_or]

def LocksNamed : Prop :=
  ∀ txid lock, s.mapTxLocks.lookup txid = some lock → lock.txHash = txid

theorem LocksNamed.distinct {s : SwiftState} (named : s.LocksNamed) :
    (s.mapTxLocks.entries.map fun item => item.2.txHash).Nodup := by
  have keys : (s.mapTxLocks.entries.map fun item => item.2.txHash) = s.mapTxLocks.keys := by
    refine List.map_congr_left fun item member => ?_
    exact named item.1 item.2 ((Assoc.mem_entries _ _ _).mp member)
  rw [keys]
  exact s.mapTxLocks.nodupKeys

def Erases (hash : Uint256) : Prop :=
  ∃ txid lock, s.mapTxLocks.lookup txid = some lock ∧ lock.expired now = true ∧
    (s.mapTxLockReq.lookup txid).isSome = true ∧
    ∃ vote ∈ lock.vecConsensusVotes, vote.getHash = hash

end SwiftState

namespace SwiftContext

variable (ctx : SwiftContext) (s : SwiftState)

theorem clean_inputs (active : ctx.chainActive ≠ []) (out : COutPoint) (txid : Uint256) :
    (ctx.cleanTransactionLocksList s).mapLockedInputs.lookup out = some txid ↔
      s.mapLockedInputs.lookup out = some txid ∧ ¬ s.Frees ctx.getTime out := by
  simp only [cleanTransactionLocksList, List.isEmpty_iff, active, ↓reduceIte,
    SwiftState.visitLocks_inputs, Sigma.forall, Assoc.mem_entries, SwiftState.visitFrees,
    SwiftState.Frees]
  refine and_congr_right fun _ => ?_
  constructor
  · rintro spared ⟨txid, lock, tx, present, expires, stored, spent⟩
    exact spared txid lock present ⟨expires, tx, stored, spent⟩
  · rintro spared txid lock present ⟨expires, tx, stored, spent⟩
    exact spared ⟨txid, lock, tx, present, expires, stored, spent⟩

theorem clean_locks (active : ctx.chainActive ≠ []) (txid : Uint256) (lock : CTransactionLock) :
    (ctx.cleanTransactionLocksList s).mapTxLocks.lookup txid = some lock ↔
      s.mapTxLocks.lookup txid = some lock ∧ lock.expired ctx.getTime = false := by
  simp only [cleanTransactionLocksList, List.isEmpty_iff, active, ↓reduceIte,
    SwiftState.visitLocks_locks, Sigma.exists, Assoc.mem_entries]
  by_cases erased : ∃ key other, s.mapTxLocks.lookup key = some other ∧
      other.expired ctx.getTime = true ∧ key = txid
  · obtain ⟨key, other, present, expires, rfl⟩ := erased
    simp [present, expires]
    rintro rfl
    exact expires
  · rw [if_neg erased]
    constructor
    · intro present
      refine ⟨present, Bool.not_eq_true _ ▸ fun expires => ?_⟩
      exact erased ⟨txid, lock, present, expires, rfl⟩
    · exact And.left

theorem clean_requests (active : ctx.chainActive ≠ []) (txid : Uint256) (tx : CTransaction) :
    (ctx.cleanTransactionLocksList s).mapTxLockReq.lookup txid = some tx ↔
      s.mapTxLockReq.lookup txid = some tx ∧
        ∀ key lock, s.mapTxLocks.lookup key = some lock → lock.txHash = txid →
          lock.expired ctx.getTime = false := by
  simp only [cleanTransactionLocksList, List.isEmpty_iff, active, ↓reduceIte,
    SwiftState.visitLocks_requests, Sigma.exists, Assoc.mem_entries]
  by_cases erased : ∃ key lock, s.mapTxLocks.lookup key = some lock ∧
      lock.expired ctx.getTime = true ∧ lock.txHash = txid
  · rw [if_pos erased]
    obtain ⟨key, lock, present, expires, same⟩ := erased
    simp only [reduceCtorEq, false_iff, not_and, not_forall]
    exact fun _ => ⟨key, lock, present, same, by simp [expires]⟩
  · rw [if_neg erased]
    refine (and_iff_left fun key lock present same => ?_).symm
    exact Bool.not_eq_true _ ▸ fun expires => erased ⟨key, lock, present, expires, same⟩

theorem clean_votes (named : s.LocksNamed) (active : ctx.chainActive ≠ []) (hash : Uint256)
    (vote : CConsensusVote) :
    (ctx.cleanTransactionLocksList s).mapTxLockVote.lookup hash = some vote ↔
      s.mapTxLockVote.lookup hash = some vote ∧ ¬ s.Erases ctx.getTime hash := by
  simp only [cleanTransactionLocksList, List.isEmpty_iff, active, ↓reduceIte,
    SwiftState.visitLocks_votes _ s _ named.distinct, Sigma.forall, Assoc.mem_entries,
    SwiftState.visitErases, SwiftState.Erases, List.mem_map]
  refine and_congr_right fun _ => ?_
  constructor
  · rintro spared ⟨txid, lock, present, expires, stored, voted⟩
    exact spared txid lock present ⟨expires, (named txid lock present).symm ▸ stored, voted⟩
  · rintro spared txid lock present ⟨expires, stored, voted⟩
    exact spared ⟨txid, lock, present, expires, named txid lock present ▸ stored, voted⟩

theorem clean_rejected (named : s.LocksNamed) (active : ctx.chainActive ≠ []) (txid : Uint256)
    (tx : CTransaction) :
    (ctx.cleanTransactionLocksList s).mapTxLockReqRejected.lookup txid = some tx ↔
      s.mapTxLockReqRejected.lookup txid = some tx ∧
        ¬ ((s.mapTxLockReq.lookup txid).isSome = true ∧
          ∃ lock, s.mapTxLocks.lookup txid = some lock ∧ lock.expired ctx.getTime = true) := by
  simp only [cleanTransactionLocksList, List.isEmpty_iff, active, ↓reduceIte,
    SwiftState.visitLocks_rejected, Sigma.exists, Assoc.mem_entries]
  have same : (∃ key lock, s.mapTxLocks.lookup key = some lock ∧
      lock.expired ctx.getTime = true ∧ lock.txHash = txid) ↔
      ∃ lock, s.mapTxLocks.lookup txid = some lock ∧ lock.expired ctx.getTime = true := by
    constructor
    · rintro ⟨key, lock, present, expires, rfl⟩
      exact ⟨lock, by rw [named key lock present]; exact present, expires⟩
    · rintro ⟨lock, present, expires⟩
      exact ⟨txid, lock, present, expires, named txid lock present⟩
  simp only [same]
  split
  next erased => simp [erased]
  next kept => simp [kept]

end SwiftContext

end CryptoYen
