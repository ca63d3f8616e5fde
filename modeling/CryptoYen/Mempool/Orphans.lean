import CryptoYen.Library.Codec
import CryptoYen.Library.InverseIndex
import CryptoYen.Primitives.Transaction

set_option autoImplicit false

namespace CryptoYen

abbrev NodeId := Int

structure COrphanTx where
  tx : CTransaction
  fromPeer : NodeId
  deriving DecidableEq, Repr

structure OrphanPool where
  mapOrphanTransactions : AList fun _ : Uint256 => COrphanTx
  mapOrphanTransactionsByPrev : AList fun _ : Uint256 => Finset Uint256

namespace OrphanPool

def empty : OrphanPool := ⟨∅, ∅⟩

def size (pool : OrphanPool) : Nat := pool.mapOrphanTransactions.entries.length

def prevHashes (tx : CTransaction) : List Uint256 := tx.prevouts.map COutPoint.hash

-- Big transactions are ignored.
def addOrphanTx [TxHasher] (pool : OrphanPool) (tx : CTransaction) (peer : NodeId) :
    OrphanPool × Bool :=
  let hash := tx.getHash
  if (pool.mapOrphanTransactions.lookup hash).isSome then (pool, false)
  else if 5000 < tx.getSerializeSize then (pool, false)
  else
    ({ mapOrphanTransactions := pool.mapOrphanTransactions.insert hash ⟨tx, peer⟩
       mapOrphanTransactionsByPrev :=
        InverseIndex.addAll pool.mapOrphanTransactionsByPrev hash (prevHashes tx) }, true)

def eraseOrphanTx (pool : OrphanPool) (hash : Uint256) : OrphanPool :=
  match pool.mapOrphanTransactions.lookup hash with
  | none => pool
  | some orphan =>
      { mapOrphanTransactions := pool.mapOrphanTransactions.erase hash
        mapOrphanTransactionsByPrev :=
          InverseIndex.removeAll pool.mapOrphanTransactionsByPrev hash (prevHashes orphan.tx) }

-- The walk over the map has gone on before the entry is erased.
def eraseOrphansFor [TxHasher] (pool : OrphanPool) (peer : NodeId) : OrphanPool :=
  (Codec.sortedEntries BitVec.toNat pool.mapOrphanTransactions).foldl
    (fun pool item =>
      if item.2.fromPeer = peer then pool.eraseOrphanTx item.2.tx.getHash else pool)
    pool

-- lower_bound of a random hash, and begin where that is the end
def randomOrphan (pool : OrphanPool) (randomhash : Uint256) : Option Uint256 :=
  let hashes := (Codec.sortedEntries BitVec.toNat pool.mapOrphanTransactions).map Prod.fst
  (hashes.find? fun hash => randomhash ≤ hash).or hashes.head?

variable {pool : OrphanPool}

theorem eraseOrphanTx_transactions (pool : OrphanPool) (hash : Uint256) :
    (pool.eraseOrphanTx hash).mapOrphanTransactions = pool.mapOrphanTransactions.erase hash := by
  unfold eraseOrphanTx
  split
  next absent =>
    have missing := AList.lookup_eq_none.mp absent
    exact AList.ext (List.kerase_of_notMem_keys missing).symm
  next => rfl

theorem randomOrphan_stored {randomhash hash : Uint256}
    (chosen : pool.randomOrphan randomhash = some hash) :
    ∃ orphan, pool.mapOrphanTransactions.lookup hash = some orphan := by
  have listed : hash ∈ (Codec.sortedEntries BitVec.toNat pool.mapOrphanTransactions).map Prod.fst := by
    rw [randomOrphan, Option.or_eq_some_iff] at chosen
    cases chosen with
    | inl above => exact List.mem_of_find?_eq_some above
    | inr first => exact List.mem_of_mem_head? first.2
  simpa [Codec.mem_sortedEntries] using listed

theorem eraseOrphanTx_size {hash : Uint256} {orphan : COrphanTx}
    (stored : pool.mapOrphanTransactions.lookup hash = some orphan) :
    (pool.eraseOrphanTx hash).size + 1 = pool.size := by
  rw [size, eraseOrphanTx_transactions]
  exact Assoc.length_erase _ _ _ stored

-- The loop of LimitOrphanTxSize; the n-th round draws the n-th random hash.
def evictOrphans (nMaxOrphans : Nat) (randomhash : Nat → Uint256) (pool : OrphanPool)
    (nEvicted : Nat) : OrphanPool × Nat :=
  if nMaxOrphans < pool.size then
    match chosen : pool.randomOrphan (randomhash nEvicted) with
    | none => (pool, nEvicted)
    | some hash => evictOrphans nMaxOrphans randomhash (pool.eraseOrphanTx hash) (nEvicted + 1)
  else (pool, nEvicted)
  termination_by pool.size
  decreasing_by
    obtain ⟨orphan, stored⟩ := randomOrphan_stored chosen
    have smaller := eraseOrphanTx_size stored
    omega

def limitOrphanTxSize (pool : OrphanPool) (nMaxOrphans : Nat) (randomhash : Nat → Uint256) :
    OrphanPool × Nat :=
  evictOrphans nMaxOrphans randomhash pool 0

end OrphanPool

inductive OrphanOp
  | addOrphanTx (tx : CTransaction) (peer : NodeId)
  | eraseOrphanTx (hash : Uint256)
  | eraseOrphansFor (peer : NodeId)
  | limitOrphanTxSize (nMaxOrphans : Nat) (randomhash : Nat → Uint256)

namespace OrphanPool

variable [TxHasher]

def apply (pool : OrphanPool) : OrphanOp → OrphanPool
  | .addOrphanTx tx peer => (pool.addOrphanTx tx peer).1
  | .eraseOrphanTx hash => pool.eraseOrphanTx hash
  | .eraseOrphansFor peer => pool.eraseOrphansFor peer
  | .limitOrphanTxSize nMaxOrphans randomhash => (pool.limitOrphanTxSize nMaxOrphans randomhash).1

def run (ops : List OrphanOp) : OrphanPool := ops.foldl apply empty

variable {pool : OrphanPool}

structure Indexed (pool : OrphanPool) : Prop where
  keyed : ∀ hash orphan, pool.mapOrphanTransactions.lookup hash = some orphan →
    orphan.tx.getHash = hash
  byPrev : ∀ prev hash, InverseIndex.Holds pool.mapOrphanTransactionsByPrev prev hash ↔
    ∃ orphan, pool.mapOrphanTransactions.lookup hash = some orphan ∧ prev ∈ prevHashes orphan.tx
  tidy : InverseIndex.Tidy pool.mapOrphanTransactionsByPrev

theorem empty_indexed : empty.Indexed where
  keyed := fun _ _ stored => by cases stored
  byPrev := fun prev hash => by simp [InverseIndex.Holds, empty]
  tidy := fun _ _ stored => by cases stored

theorem addOrphanTx_indexed (indexed : pool.Indexed) (tx : CTransaction) (peer : NodeId) :
    (pool.addOrphanTx tx peer).1.Indexed := by
  simp only [addOrphanTx]
  split
  next => exact indexed
  next fresh =>
    split
    next => exact indexed
    next =>
      have absent : pool.mapOrphanTransactions.lookup tx.getHash = none := by simpa using fresh
      constructor
      case keyed =>
        intro hash orphan stored
        simp only [Assoc.lookup_insert] at stored
        split at stored
        next same =>
          cases stored
          exact same.symm
        next => exact indexed.keyed hash orphan stored
      case byPrev =>
        intro prev hash
        simp only [InverseIndex.holds_addAll, indexed.byPrev, Assoc.lookup_insert]
        by_cases same : hash = tx.getHash
        next =>
          subst same
          simp [absent]
        next => simp [same]
      case tidy => exact InverseIndex.tidy_addAll _ _ _ indexed.tidy

omit [TxHasher] in
theorem eraseOrphanTx_lookup (pool : OrphanPool) (hash other : Uint256) :
    (pool.eraseOrphanTx hash).mapOrphanTransactions.lookup other =
      if other = hash then none else pool.mapOrphanTransactions.lookup other := by
  rw [eraseOrphanTx_transactions, Assoc.lookup_erase]

theorem eraseOrphanTx_indexed (indexed : pool.Indexed) (hash : Uint256) :
    (pool.eraseOrphanTx hash).Indexed := by
  constructor
  case keyed =>
    intro other orphan stored
    rw [eraseOrphanTx_lookup] at stored
    split at stored
    next => cases stored
    next => exact indexed.keyed other orphan stored
  case byPrev =>
    intro prev other
    rw [eraseOrphanTx_lookup]
    unfold eraseOrphanTx
    cases stored : pool.mapOrphanTransactions.lookup hash with
    | none =>
        simp only [indexed.byPrev]
        by_cases same : other = hash
        next =>
          subst same
          simp [stored]
        next => simp [same]
    | some orphan =>
        simp only [InverseIndex.holds_removeAll, indexed.byPrev]
        by_cases same : other = hash
        next =>
          subst same
          simp [stored]
        next => simp [same]
  case tidy =>
    unfold eraseOrphanTx
    split
    next => exact indexed.tidy
    next => exact InverseIndex.tidy_removeAll _ _ _ indexed.tidy

theorem eraseOrphansFor_indexed (indexed : pool.Indexed) (peer : NodeId) :
    (pool.eraseOrphansFor peer).Indexed := by
  refine List.foldlRecOn _ _ indexed fun left kept item _ => ?_
  split
  next => exact eraseOrphanTx_indexed kept _
  next => exact kept

omit [TxHasher] in
theorem randomOrphan_empty (randomhash : Uint256) (none : pool.randomOrphan randomhash = none) :
    pool.size = 0 := by
  rw [randomOrphan, Option.or_eq_none_iff] at none
  have empty := List.map_eq_nil_iff.mp (List.head?_eq_none_iff.mp none.2)
  rw [size, ← Codec.sortedEntries_length BitVec.toNat, empty, List.length_nil]

omit [TxHasher] in
theorem evictOrphans_step (nMaxOrphans : Nat) (randomhash : Nat → Uint256) (nEvicted : Nat)
    (more : nMaxOrphans < pool.size) :
    ∃ hash orphan, pool.mapOrphanTransactions.lookup hash = some orphan ∧
      evictOrphans nMaxOrphans randomhash pool nEvicted =
        evictOrphans nMaxOrphans randomhash (pool.eraseOrphanTx hash) (nEvicted + 1) := by
  cases chosen : pool.randomOrphan (randomhash nEvicted) with
  | none =>
      have empty := randomOrphan_empty _ chosen
      omega
  | some hash =>
      obtain ⟨orphan, stored⟩ := randomOrphan_stored chosen
      refine ⟨hash, orphan, stored, ?_⟩
      rw [evictOrphans, if_pos more]
      split
      next none =>
        rw [chosen] at none
        cases none
      next other same =>
        rw [chosen] at same
        cases same
        rfl

omit [TxHasher] in
theorem evictOrphans_spec (holds : OrphanPool → Prop)
    (erases : ∀ pool hash, holds pool → holds (pool.eraseOrphanTx hash)) (nMaxOrphans : Nat)
    (randomhash : Nat → Uint256) (nEvicted excess : Nat) (pool : OrphanPool)
    (count : pool.size - nMaxOrphans = excess) (held : holds pool) :
    holds (evictOrphans nMaxOrphans randomhash pool nEvicted).1 ∧
      (evictOrphans nMaxOrphans randomhash pool nEvicted).1.size + excess = pool.size ∧
        (evictOrphans nMaxOrphans randomhash pool nEvicted).2 = nEvicted + excess := by
  induction excess generalizing pool nEvicted with
  | zero =>
      have few : ¬ nMaxOrphans < pool.size := by omega
      rw [evictOrphans, if_neg few]
      exact ⟨held, rfl, rfl⟩
  | succ excess ih =>
      have more : nMaxOrphans < pool.size := by omega
      obtain ⟨hash, orphan, stored, round⟩ := evictOrphans_step nMaxOrphans randomhash nEvicted more
      have smaller := eraseOrphanTx_size stored
      have rest := ih (nEvicted + 1) (pool.eraseOrphanTx hash) (by omega) (erases pool hash held)
      rw [round]
      refine ⟨rest.1, ?_, ?_⟩
      · omega
      · omega

theorem apply_indexed (indexed : pool.Indexed) (op : OrphanOp) : (pool.apply op).Indexed := by
  cases op with
  | addOrphanTx tx peer => exact addOrphanTx_indexed indexed tx peer
  | eraseOrphanTx hash => exact eraseOrphanTx_indexed indexed hash
  | eraseOrphansFor peer => exact eraseOrphansFor_indexed indexed peer
  | limitOrphanTxSize nMaxOrphans randomhash =>
      exact (evictOrphans_spec Indexed (fun _ hash kept => eraseOrphanTx_indexed kept hash)
        nMaxOrphans randomhash 0 _ pool rfl indexed).1

theorem run_indexed (ops : List OrphanOp) : (run ops).Indexed :=
  List.foldlRecOn ops apply empty_indexed fun _ indexed op _ => apply_indexed indexed op

theorem foldl_eraseOrphanTx (peer : NodeId) (items : List (Uint256 × COrphanTx))
    (pool : OrphanPool) :
    (items.foldl (fun pool item =>
        if item.2.fromPeer = peer then pool.eraseOrphanTx item.2.tx.getHash else pool)
      pool).mapOrphanTransactions =
    items.foldl (fun map item =>
        if decide (item.2.fromPeer = peer) then map.erase item.2.tx.getHash else map)
      pool.mapOrphanTransactions := by
  induction items generalizing pool with
  | nil => rfl
  | cons item rest ih =>
      rw [List.foldl_cons, List.foldl_cons, ih]
      by_cases own : item.2.fromPeer = peer
      next => simp [own, eraseOrphanTx_transactions]
      next => simp [own]

theorem eraseOrphansFor_lookup (indexed : pool.Indexed) (peer : NodeId) (hash : Uint256) :
    (pool.eraseOrphansFor peer).mapOrphanTransactions.lookup hash =
      (pool.mapOrphanTransactions.lookup hash).filter fun orphan => orphan.fromPeer ≠ peer := by
  rw [eraseOrphansFor, foldl_eraseOrphanTx, Assoc.lookup_eraseWhere]
  simp only [Prod.exists, Codec.mem_sortedEntries, decide_eq_true_eq]
  cases stored : pool.mapOrphanTransactions.lookup hash with
  | none => simp
  | some orphan =>
      have same := indexed.keyed hash orphan stored
      by_cases own : orphan.fromPeer = peer
      next =>
        rw [if_pos ⟨hash, orphan, stored, own, same⟩]
        simp [Option.filter, own]
      next =>
        rw [if_neg]
        · simp [Option.filter, own]
        intro ⟨key, other, present, owned, hashed⟩
        rw [indexed.keyed key other present] at hashed
        rw [hashed, stored] at present
        cases present
        exact own owned

def Limited (pool : OrphanPool) (nMaxOrphans : Nat) (randomhash : Nat → Uint256) : Prop :=
  let (left, nEvicted) := pool.limitOrphanTxSize nMaxOrphans randomhash
  left.size ≤ nMaxOrphans ∧ nEvicted = pool.size - nMaxOrphans ∧ left.size + nEvicted = pool.size ∧
    ∀ hash orphan, left.mapOrphanTransactions.lookup hash = some orphan →
      pool.mapOrphanTransactions.lookup hash = some orphan

omit [TxHasher] in
theorem limitOrphanTxSize_limited (pool : OrphanPool) (nMaxOrphans : Nat)
    (randomhash : Nat → Uint256) : pool.Limited nMaxOrphans randomhash := by
  have spec := evictOrphans_spec
    (fun left => ∀ hash orphan, left.mapOrphanTransactions.lookup hash = some orphan →
      pool.mapOrphanTransactions.lookup hash = some orphan)
    (fun left erased kept hash orphan stored => by
      rw [eraseOrphanTx_lookup] at stored
      split at stored
      next => cases stored
      next => exact kept hash orphan stored)
    nMaxOrphans randomhash 0 _ pool rfl (fun _ _ stored => stored)
  obtain ⟨kept, size, evicted⟩ := spec
  simp only [Limited, limitOrphanTxSize]
  refine ⟨?_, ?_, ?_, kept⟩
  · omega
  · omega
  · omega

theorem run_consistent (ops : List OrphanOp) :
    (run ops).Indexed ∧
      (∀ peer hash, ((run ops).eraseOrphansFor peer).mapOrphanTransactions.lookup hash =
        ((run ops).mapOrphanTransactions.lookup hash).filter fun orphan => orphan.fromPeer ≠ peer) ∧
      ∀ nMaxOrphans randomhash, (run ops).Limited nMaxOrphans randomhash :=
  ⟨run_indexed ops, eraseOrphansFor_lookup (run_indexed ops),
    limitOrphanTxSize_limited (run ops)⟩

end OrphanPool

end CryptoYen
