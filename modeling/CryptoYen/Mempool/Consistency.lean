import CryptoYen.Mempool.Pool

set_option autoImplicit false

namespace CryptoYen

namespace CTxMemPool

/-- What CTxMemPool::check asserts of the two maps and the size counter. -/
structure Consistent (pool : CTxMemPool) : Prop where
  disjoint : ∀ (first second : CTransaction) (i j : Nat) (out : COutPoint),
    pool.Holds first → pool.Holds second → first.prevouts[i]? = some out →
      second.prevouts[j]? = some out → first = second ∧ i = j
  marked : ∀ (tx : CTransaction) (i : Nat) (out : COutPoint), pool.Holds tx →
    tx.prevouts[i]? = some out → pool.mapNextTx.lookup out = some ⟨tx, i⟩
  points : ∀ out it, pool.mapNextTx.lookup out = some it →
    pool.Holds it.ptx ∧ it.ptx.prevouts[it.n]? = some out
  total : pool.totalTxSize = pool.checkTotal

variable [TxHasher]

-- The invariant behind it: transactions sit under their own hash, and mapNextTx is the inverse of
-- spending.
structure Indexed (pool : CTxMemPool) : Prop where
  keyed : ∀ hash entry, pool.mapTx.lookup hash = some entry → entry.tx.getHash = hash
  next : ∀ out it, pool.mapNextTx.lookup out = some it ↔
    pool.Holds it.ptx ∧ it.ptx.prevouts[it.n]? = some out
  total : pool.totalTxSize = pool.checkTotal

theorem Indexed.consistent {pool : CTxMemPool} (indexed : pool.Indexed) : pool.Consistent := by
  have marked (tx : CTransaction) (i : Nat) (out : COutPoint) (held : pool.Holds tx)
      (spends : tx.prevouts[i]? = some out) : pool.mapNextTx.lookup out = some ⟨tx, i⟩ :=
    (indexed.next out ⟨tx, i⟩).mpr ⟨held, spends⟩
  refine ⟨?_, marked, fun out it => (indexed.next out it).mp, indexed.total⟩
  intro first second i j out heldFirst heldSecond spendsFirst spendsSecond
  have same := (marked first i out heldFirst spendsFirst).symm.trans
    (marked second j out heldSecond spendsSecond)
  cases same
  exact ⟨rfl, rfl⟩

theorem empty_indexed (fSanityCheck : Bool) : (empty fSanityCheck).Indexed := by
  constructor
  · intro hash entry found
    simp [empty] at found
  · intro out it
    simp [empty, Holds]
  · rfl

theorem clear_indexed (pool : CTxMemPool) : pool.clear.Indexed := by
  constructor
  · intro hash entry found
    simp [clear] at found
  · intro out it
    simp [clear, Holds]
  · rfl

theorem mapDeltas_indexed (pool : CTxMemPool) (mapDeltas : AList fun _ : Uint256 => Int × Int)
    (indexed : pool.Indexed) : Indexed { pool with mapDeltas := mapDeltas } :=
  ⟨indexed.keyed, indexed.next, indexed.total⟩

theorem removeEntry_holds (pool : CTxMemPool) (indexed : pool.Indexed) (hash : Uint256)
    (entry : CTxMemPoolEntry) (present : pool.mapTx.lookup hash = some entry)
    (tx : CTransaction) :
    (pool.removeEntry hash entry).Holds tx ↔ pool.Holds tx ∧ tx ≠ entry.tx := by
  have key := indexed.keyed hash entry present
  simp only [Holds, removeEntry, Assoc.lookup_erase]
  constructor
  · intro held
    obtain ⟨other, kept, found, same⟩ := held
    split at found
    next => cases found
    next different =>
      refine ⟨⟨other, kept, found, same⟩, ?_⟩
      intro equal
      have otherKey := indexed.keyed other kept found
      rw [same, equal, key] at otherKey
      exact different otherKey.symm
  · intro held
    obtain ⟨⟨other, kept, found, same⟩, different⟩ := held
    refine ⟨other, kept, ?_, same⟩
    rw [if_neg, found]
    intro equal
    rw [equal, present] at found
    cases found
    exact different same.symm

theorem removeEntry_indexed (pool : CTxMemPool) (indexed : pool.Indexed) (hash : Uint256)
    (entry : CTxMemPoolEntry) (present : pool.mapTx.lookup hash = some entry) :
    (pool.removeEntry hash entry).Indexed := by
  constructor
  · intro other kept found
    rw [removeEntry, Assoc.lookup_erase] at found
    split at found
    next => cases found
    next => exact indexed.keyed other kept found
  · intro out it
    rw [removeEntry_holds pool indexed hash entry present]
    simp only [removeEntry, Assoc.lookup_eraseAll]
    constructor
    · intro found
      split at found
      next => cases found
      next kept =>
        obtain ⟨held, spends⟩ := (indexed.next out it).mp found
        refine ⟨⟨held, ?_⟩, spends⟩
        intro equal
        rw [equal] at spends
        exact kept (List.mem_of_getElem? spends)
    · intro held
      obtain ⟨⟨held, different⟩, spends⟩ := held
      have found := (indexed.next out it).mpr ⟨held, spends⟩
      rw [if_neg, found]
      intro member
      obtain ⟨i, here⟩ := List.getElem?_of_mem member
      have own := (indexed.next out ⟨entry.tx, i⟩).mpr ⟨⟨hash, entry, present, rfl⟩, here⟩
      rw [found] at own
      cases own
      exact different rfl
  · have total := Assoc.sumBy_erase (fun entry : CTxMemPoolEntry => BitVec.ofNat 64 entry.nTxSize)
      pool.mapTx hash entry present
    simp only [removeEntry, checkTotal, indexed.total]
    rw [← total]
    exact add_sub_cancel_left _ _

theorem removeLoop_indexed (fRecursive : Bool) (pool : CTxMemPool) (txToRemove : List Uint256)
    (removed : List CTransaction) (indexed : pool.Indexed) :
    (removeLoop fRecursive pool txToRemove removed).1.Indexed := by
  induction pool, txToRemove, removed using removeLoop.induct fRecursive with
  | case1 pool removed =>
      rw [removeLoop]
      exact indexed
  | case2 pool removed hash rest absent ih =>
      rw [removeLoop]
      split
      next => exact ih indexed
      next entry present =>
        rw [absent] at present
        cases present
  | case3 pool removed hash rest entry present ih =>
      rw [removeLoop]
      split
      next absent =>
        rw [present] at absent
        cases absent
      next other found =>
        rw [present] at found
        cases found
        exact ih (removeEntry_indexed pool indexed hash entry present)

theorem remove_indexed (pool : CTxMemPool) (origTx : CTransaction) (removed : List CTransaction)
    (fRecursive : Bool) (indexed : pool.Indexed) :
    (pool.remove origTx removed fRecursive).1.Indexed :=
  removeLoop_indexed fRecursive pool _ removed indexed

theorem removeAll_indexed (pool : CTxMemPool) (txs : List CTransaction) (indexed : pool.Indexed) :
    (pool.removeAll txs).Indexed := by
  induction txs generalizing pool with
  | nil => exact indexed
  | cons tx rest ih => exact ih _ (remove_indexed pool tx [] true indexed)

theorem removeCoinbaseSpends_indexed (pool : CTxMemPool) (params : CChainParams)
    (pcoins : CCoinsView) (nMemPoolHeight : Nat) (next : CTxMemPool) (indexed : pool.Indexed)
    (ran : pool.removeCoinbaseSpends params pcoins nMemPoolHeight = some next) : next.Indexed := by
  obtain ⟨txs, _, same⟩ := Option.bind_eq_some_iff.mp ran
  cases same
  exact removeAll_indexed pool txs indexed

theorem removeConflict_indexed (tx : CTransaction) (state : CTxMemPool × List CTransaction)
    (txin : CTxIn) (indexed : state.1.Indexed) : (removeConflict tx state txin).1.Indexed := by
  unfold removeConflict
  split
  next => exact indexed
  next it _ =>
    split
    next => exact indexed
    next => exact remove_indexed state.1 it.ptx state.2 true indexed

theorem removeConflicts_indexed (pool : CTxMemPool) (tx : CTransaction)
    (removed : List CTransaction) (indexed : pool.Indexed) :
    (pool.removeConflicts tx removed).1.Indexed := by
  have conflicts (vin : List CTxIn) (state : CTxMemPool × List CTransaction)
      (here : state.1.Indexed) : (vin.foldl (removeConflict tx) state).1.Indexed := by
    induction vin generalizing state with
    | nil => exact here
    | cons txin rest ih => exact ih _ (removeConflict_indexed tx state txin here)
  exact conflicts tx.vin (pool, removed) indexed

theorem removeForBlock_indexed (pool : CTxMemPool) (vtx conflicts : List CTransaction)
    (indexed : pool.Indexed) : (pool.removeForBlock vtx conflicts).1.Indexed := by
  have block (txs : List CTransaction) (state : CTxMemPool × List CTransaction)
      (here : state.1.Indexed) : (txs.foldl removeBlockTx state).1.Indexed := by
    induction txs generalizing state with
    | nil => exact here
    | cons tx rest ih =>
        apply ih
        apply mapDeltas_indexed
        apply removeConflicts_indexed
        exact remove_indexed state.1 tx [] false here
  exact block vtx (pool, conflicts) indexed

omit [TxHasher] in
private theorem markInputs_from (tx : CTransaction) (vin : List CTxIn) (offset : Nat)
    (map : AList fun _ : COutPoint => CInPoint) (out : COutPoint) (it : CInPoint)
    (distinct : (vin.map CTxIn.prevout).Nodup) :
    ((vin.zipIdx offset).foldl
        (fun map input => map.insert input.1.prevout ⟨tx, input.2⟩) map).lookup out = some it ↔
      (it.ptx = tx ∧ offset ≤ it.n ∧ (vin.map CTxIn.prevout)[it.n - offset]? = some out) ∨
        (out ∉ vin.map CTxIn.prevout ∧ map.lookup out = some it) := by
  induction vin generalizing offset map with
  | nil => simp
  | cons txin rest ih =>
      rw [List.map_cons, List.nodup_cons] at distinct
      rw [List.zipIdx_cons, List.foldl_cons, ih (offset + 1) _ distinct.2, Assoc.lookup_insert]
      obtain ⟨ptx, n⟩ := it
      dsimp only
      have later (beyond : offset + 1 ≤ n) :
          (txin.prevout :: rest.map CTxIn.prevout)[n - offset]? =
            (rest.map CTxIn.prevout)[n - (offset + 1)]? := by
        rw [show n - offset = n - (offset + 1) + 1 by omega, List.getElem?_cons_succ]
      have first (here : n = offset) :
          (txin.prevout :: rest.map CTxIn.prevout)[n - offset]? = some txin.prevout := by
        rw [here, Nat.sub_self, List.getElem?_cons_zero]
      rw [List.map_cons, List.mem_cons, not_or]
      by_cases same : out = txin.prevout
      · rw [if_pos same]
        constructor
        · intro found
          rcases found with ⟨_, _, found⟩ | ⟨_, found⟩
          · rw [same] at found
            exact absurd (List.mem_of_getElem? found) distinct.1
          · cases found
            exact .inl ⟨rfl, le_rfl, by rw [first rfl, same]⟩
        · intro found
          rcases found with ⟨owner, reached, found⟩ | ⟨⟨different, _⟩, _⟩
          · by_cases here : n = offset
            · refine .inr ⟨by rw [same]; exact distinct.1, ?_⟩
              rw [owner, here]
            · rw [later (by omega), same] at found
              exact absurd (List.mem_of_getElem? found) distinct.1
          · exact absurd same different
      · rw [if_neg same]
        constructor
        · intro found
          rcases found with ⟨owner, reached, found⟩ | ⟨absent, found⟩
          · exact .inl ⟨owner, by omega, by rw [later reached, found]⟩
          · exact .inr ⟨⟨same, absent⟩, found⟩
        · intro found
          rcases found with ⟨owner, reached, found⟩ | ⟨⟨_, absent⟩, found⟩
          · by_cases here : n = offset
            · rw [first here] at found
              exact absurd (Option.some.inj found).symm same
            · exact .inl ⟨owner, by omega, by rw [← later (by omega), found]⟩
          · exact .inr ⟨absent, found⟩

omit [TxHasher] in
theorem markInputs_lookup (tx : CTransaction) (map : AList fun _ : COutPoint => CInPoint)
    (out : COutPoint) (it : CInPoint) (distinct : tx.prevouts.Nodup) :
    (markInputs tx map).lookup out = some it ↔
      (it.ptx = tx ∧ tx.prevouts[it.n]? = some out) ∨
        (out ∉ tx.prevouts ∧ map.lookup out = some it) := by
  have found := markInputs_from tx tx.vin 0 map out it distinct
  simp only [Nat.zero_le, true_and, Nat.sub_zero] at found
  exact found

-- Nothing that the pool holds may spend an input of a transaction that enters it.
structure Free (pool : CTxMemPool) (tx : CTransaction) : Prop where
  distinct : tx.prevouts.Nodup
  unspent : ∀ out ∈ tx.prevouts, pool.mapNextTx.lookup out = none

omit [TxHasher] in
theorem addUnchecked_holds (pool : CTxMemPool) (hash : Uint256) (entry : CTxMemPoolEntry)
    (absent : pool.mapTx.lookup hash = none) (tx : CTransaction) :
    (pool.addUnchecked hash entry).Holds tx ↔ tx = entry.tx ∨ pool.Holds tx := by
  simp only [Holds, addUnchecked, Assoc.lookup_insert]
  constructor
  · intro held
    obtain ⟨other, kept, found, same⟩ := held
    split at found
    next =>
      cases found
      exact .inl same.symm
    next => exact .inr ⟨other, kept, found, same⟩
  · intro held
    rcases held with rfl | ⟨other, kept, found, same⟩
    · exact ⟨hash, entry, by rw [if_pos rfl], rfl⟩
    · refine ⟨other, kept, ?_, same⟩
      rw [if_neg, found]
      intro equal
      rw [equal, absent] at found
      cases found

theorem addUnchecked_indexed (pool : CTxMemPool) (hash : Uint256) (entry : CTxMemPoolEntry)
    (absent : pool.mapTx.lookup hash = none) (key : entry.tx.getHash = hash)
    (free : pool.Free entry.tx) (indexed : pool.Indexed) :
    (pool.addUnchecked hash entry).Indexed := by
  constructor
  · intro other kept found
    rw [addUnchecked, Assoc.lookup_insert] at found
    split at found
    next same =>
      cases found
      rw [same, key]
    next => exact indexed.keyed other kept found
  · intro out it
    rw [addUnchecked_holds pool hash entry absent]
    simp only [addUnchecked, markInputs_lookup entry.tx _ out it free.distinct]
    constructor
    · intro found
      rcases found with ⟨owner, spends⟩ | ⟨_, found⟩
      · exact ⟨.inl owner, by rw [owner, spends]⟩
      · obtain ⟨held, spends⟩ := (indexed.next out it).mp found
        exact ⟨.inr held, spends⟩
    · intro held
      obtain ⟨owner | held, spends⟩ := held
      · exact .inl ⟨owner, by rw [← owner, spends]⟩
      · have found := (indexed.next out it).mpr ⟨held, spends⟩
        refine .inr ⟨fun member => ?_, found⟩
        rw [free.unspent out member] at found
        cases found
  · have total := Assoc.sumBy_insert
      (fun entry : CTxMemPoolEntry => BitVec.ofNat 64 entry.nTxSize) pool.mapTx hash entry absent
    simp only [addUnchecked, checkTotal, indexed.total]
    rw [total, add_comm]

end CTxMemPool

end CryptoYen
