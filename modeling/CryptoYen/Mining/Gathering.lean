import CryptoYen.Mining.CreateNewBlock
import CryptoYen.Mempool.Consistency

set_option autoImplicit false

namespace CryptoYen

def COrphan.queued {P : Type} (orphan : COrphan P) : TxPriority P :=
  ⟨orphan.dPriority, orphan.feeRate, orphan.ptx⟩

namespace Miner

variable {P : Type} (miner : Miner P)

def waits (vin : List CTxIn) : Finset Uint256 :=
  ((vin.map fun txin => txin.prevout.hash).filter fun hash => !miner.pcoinsTip.haveCoins hash).toFinset

def parents (tx : CTransaction) : Finset Uint256 := miner.waits tx.vin

theorem waits_append (done : List CTxIn) (txin : CTxIn) :
    miner.waits (done ++ [txin]) =
      if miner.pcoinsTip.haveCoins txin.prevout.hash then miner.waits done
      else insert txin.prevout.hash (miner.waits done) := by
  rw [waits, List.map_append, List.filter_append, List.toFinset_append, List.map_singleton]
  cases present : miner.pcoinsTip.haveCoins txin.prevout.hash with
  | true => simp [waits, present]
  | false =>
      have alone : ([txin.prevout.hash].filter fun hash => !miner.pcoinsTip.haveCoins hash) =
          [txin.prevout.hash] := by simp [present]
      rw [alone, if_neg Bool.false_ne_true, Finset.union_comm]
      rfl

def inputValue (txin : CTxIn) : Int :=
  let txout :=
    if miner.pcoinsTip.haveCoins txin.prevout.hash then
      (miner.pcoinsTip.record txin.prevout.hash).vout[txin.prevout.n]?
    else
      (miner.pool.mapTx.lookup txin.prevout.hash).bind fun parent => parent.tx.vout[txin.prevout.n]?
  (txout.map CTxOut.nValue).getD 0

def feeRate [TxHasher] (tx : CTransaction) : Int :=
  feeRateOf ((tx.vin.map miner.inputValue).sum + (miner.pool.applyDeltas tx.getHash).2 -
    tx.getValueOut.getD 0) tx.getSerializeSize

def addPriority (dPriority : P) (txin : CTxIn) : P :=
  if miner.pcoinsTip.haveCoins txin.prevout.hash then
    miner.rules.addInput dPriority (miner.inputValue txin)
      (miner.nHeight - (miner.pcoinsTip.record txin.prevout.hash).nHeight)
  else dPriority

def priority [TxHasher] (tx : CTransaction) : P :=
  miner.rules.addDelta (computePriority miner.rules tx (tx.vin.foldl miner.addPriority miner.rules.zero)
    tx.getSerializeSize) (miner.pool.applyDeltas tx.getHash).1

structure Rated [TxHasher] (top : TxPriority P) : Prop where
  feeRate : top.feeRate = miner.feeRate top.ptx
  dPriority : top.dPriority = miner.priority top.ptx

/-- What the miner relies on: all transactions in the pool connect to transactions in the chain or to
others in the pool, and none of them spends an output twice. -/
structure Minable [TxHasher] : Prop where
  tip : (miner.mapBlockIndex miner.pcoinsTip.hashBlock).isSome = true
  keyed : ∀ hash entry, miner.pool.mapTx.lookup hash = some entry → entry.tx.getHash = hash
  distinct : ∀ tx, miner.pool.Holds tx → tx.prevouts.Nodup
  valued : ∀ tx, miner.pool.Holds tx → tx.getValueOut.isSome = true
  onChain : ∀ tx, miner.pool.Holds tx → ∀ txin ∈ tx.vin,
    miner.pcoinsTip.haveCoins txin.prevout.hash = true →
      txin.prevout.n < (miner.pcoinsTip.record txin.prevout.hash).vout.length
  inPool : ∀ tx, miner.pool.Holds tx → ∀ txin ∈ tx.vin,
    miner.pcoinsTip.haveCoins txin.prevout.hash = false →
      ∃ parent, miner.pool.mapTx.lookup txin.prevout.hash = some parent ∧
        txin.prevout.n < parent.tx.vout.length

section scan

structure Waiting (tx : CTransaction) (gathered : Gathered P) (done : List CTxIn) (scan : InputScan P)
    (porphan : Nat) : Prop where
  fresh : porphan ∉ gathered.memory.live
  current : scan.porphan = some porphan
  vOrphan : scan.gathered.vOrphan = gathered.vOrphan ++ [porphan]
  live : scan.gathered.memory.live = insert porphan gathered.memory.live
  others : ∀ q, q ≠ porphan → scan.gathered.memory.content q = gathered.memory.content q
  ptx : (scan.gathered.memory.content porphan).ptx = tx
  setDependsOn : (scan.gathered.memory.content porphan).setDependsOn = miner.waits done
  dependers : ∀ hash q, q ∈ dependersOf scan.gathered.mapDependers hash ↔
    q ∈ dependersOf gathered.mapDependers hash ∨ q = porphan ∧ hash ∈ miner.waits done

structure Scanned (tx : CTransaction) (gathered : Gathered P) (done : List CTxIn) (scan : InputScan P) :
    Prop where
  found : scan.fMissingInputs = false
  vecPriority : scan.gathered.vecPriority = gathered.vecPriority
  total : scan.nTotalIn = (done.map miner.inputValue).sum
  priority : scan.dPriority = done.foldl miner.addPriority miner.rules.zero
  state : (miner.waits done = ∅ ∧ scan.porphan = none ∧ scan.gathered = gathered) ∨
    (miner.waits done ≠ ∅ ∧ ∃ porphan, miner.Waiting tx gathered done scan porphan)

variable {miner} {tx : CTransaction} {gathered : Gathered P} {done : List CTxIn} {scan : InputScan P}

theorem Scanned.orphanFor (scanned : miner.Scanned tx gathered done scan) :
    (miner.orphanFor tx scan).1.fMissingInputs = false ∧
      (miner.orphanFor tx scan).1.gathered.vecPriority = gathered.vecPriority ∧
      (miner.orphanFor tx scan).1.nTotalIn = scan.nTotalIn ∧
      (miner.orphanFor tx scan).1.dPriority = scan.dPriority ∧
      miner.Waiting tx gathered done (miner.orphanFor tx scan).1 (miner.orphanFor tx scan).2 := by
  rcases scanned.state with ⟨none_yet, no_orphan, same⟩ | ⟨_, porphan, waiting⟩
  · have fresh := miner.allocator.fresh scan.gathered.memory.live
    rw [Miner.orphanFor, no_orphan]
    dsimp only
    rw [same] at fresh ⊢
    refine ⟨scanned.found, rfl, rfl, rfl, ⟨fresh, rfl, rfl, rfl, fun q other => ?_, ?_, ?_,
      fun hash q => ?_⟩⟩
    · exact Function.update_of_ne other _ _
    · simp [Heap.Memory.allocate]
    · simp [Heap.Memory.allocate, none_yet]
    · rw [none_yet]
      simp
  · rw [Miner.orphanFor, waiting.current]
    exact ⟨scanned.found, scanned.vecPriority, rfl, rfl, waiting⟩

theorem Scanned.scanInput (scanned : miner.Scanned tx gathered done scan) (txin : CTxIn)
    (onChain : miner.pcoinsTip.haveCoins txin.prevout.hash = true →
      txin.prevout.n < (miner.pcoinsTip.record txin.prevout.hash).vout.length)
    (inPool : miner.pcoinsTip.haveCoins txin.prevout.hash = false →
      ∃ parent, miner.pool.mapTx.lookup txin.prevout.hash = some parent ∧
        txin.prevout.n < parent.tx.vout.length) :
    ∃ next, miner.scanInput tx scan txin = some next ∧
      miner.Scanned tx gathered (done ++ [txin]) next := by
  rw [Miner.scanInput, scanned.found, if_neg Bool.false_ne_true]
  cases present : miner.pcoinsTip.haveCoins txin.prevout.hash with
  | true =>
      have same : miner.waits (done ++ [txin]) = miner.waits done := by
        rw [waits_append, present, if_pos rfl]
      rw [Bool.not_true, if_neg Bool.false_ne_true]
      dsimp only
      rw [List.getElem?_eq_getElem (onChain present), Option.map_some]
      refine ⟨_, rfl, rfl, scanned.vecPriority, ?_, ?_, ?_⟩
      · simp [scanned.total, inputValue, present, List.getElem?_eq_getElem (onChain present)]
      · simp [scanned.priority, addPriority, inputValue, present,
          List.getElem?_eq_getElem (onChain present)]
      rw [same]
      rcases scanned.state with ⟨none_yet, no_orphan, gathered⟩ | ⟨some_yet, porphan, waiting⟩
      · exact .inl ⟨none_yet, no_orphan, gathered⟩
      · refine .inr ⟨some_yet, porphan, ⟨waiting.fresh, waiting.current, waiting.vOrphan, waiting.live,
          waiting.others, waiting.ptx, ?_, ?_⟩⟩
        · rw [same]
          exact waiting.setDependsOn
        · rw [same]
          exact waiting.dependers
  | false =>
      obtain ⟨parent, found, inside⟩ := inPool present
      have more : miner.waits (done ++ [txin]) = insert txin.prevout.hash (miner.waits done) := by
        rw [waits_append, present, if_neg Bool.false_ne_true]
      obtain ⟨not_missing, vecPriority, total, priority, waiting⟩ := scanned.orphanFor
      rw [Bool.not_false, if_pos rfl, found]
      dsimp only
      have live : (miner.orphanFor tx scan).2 ∈ (miner.orphanFor tx scan).1.gathered.memory.live := by
        rw [waiting.live]
        exact Finset.mem_insert_self _ _
      simp only [scanParent, Heap.Memory.deref_live _ _ live, List.getElem?_eq_getElem inside, bind,
        Option.bind, pure]
      refine ⟨_, rfl, not_missing, vecPriority, ?_, ?_, .inr ⟨?_, (miner.orphanFor tx scan).2,
        ⟨waiting.fresh, waiting.current, waiting.vOrphan, waiting.live, fun q other => ?_, ?_, ?_,
          fun hash q => ?_⟩⟩⟩
      · simp [total, scanned.total, inputValue, present, found, List.getElem?_eq_getElem inside]
      · simp [priority, scanned.priority, addPriority, present]
      · rw [more]
        exact Finset.insert_ne_empty _ _
      · exact (Function.update_of_ne other _ _).trans (waiting.others q other)
      · simp only [Heap.Memory.assign, Function.update_self]
        exact waiting.ptx
      · simp only [Heap.Memory.assign, Function.update_self]
        rw [more, waiting.setDependsOn]
      · have here := waiting.dependers
        rw [more, dependersOf, Assoc.lookup_insert, Finset.mem_insert]
        by_cases same : hash = txin.prevout.hash
        · subst same
          rw [if_pos rfl, Option.getD_some, List.mem_append, List.mem_singleton, here]
          tauto
        · rw [if_neg same]
          exact (here hash q).trans (by tauto)

theorem Scanned.run (scanned : miner.Scanned tx gathered done scan) (vin : List CTxIn)
    (onChain : ∀ txin ∈ vin, miner.pcoinsTip.haveCoins txin.prevout.hash = true →
      txin.prevout.n < (miner.pcoinsTip.record txin.prevout.hash).vout.length)
    (inPool : ∀ txin ∈ vin, miner.pcoinsTip.haveCoins txin.prevout.hash = false →
      ∃ parent, miner.pool.mapTx.lookup txin.prevout.hash = some parent ∧
        txin.prevout.n < parent.tx.vout.length) :
    ∃ final, vin.foldlM (miner.scanInput tx) scan = some final ∧
      miner.Scanned tx gathered (done ++ vin) final := by
  induction vin generalizing done scan with
  | nil => exact ⟨scan, rfl, by rwa [List.append_nil]⟩
  | cons txin vin ih =>
      obtain ⟨here, onChain⟩ := List.forall_mem_cons.mp onChain
      obtain ⟨there, inPool⟩ := List.forall_mem_cons.mp inPool
      obtain ⟨next, taken, now⟩ := scanned.scanInput txin here there
      obtain ⟨final, ran, all⟩ := ih now onChain inPool
      rw [List.append_assoc] at all
      exact ⟨final, by rw [List.foldlM_cons, taken]; exact ran, all⟩

end scan

section pool

theorem mem_sortedTxs (pool : CTxMemPool) (tx : CTransaction) :
    tx ∈ pool.sortedTxs ↔ pool.Holds tx := by
  simp only [CTxMemPool.sortedTxs, List.mem_map, List.mem_insertionSort, CTxMemPool.Holds]
  constructor
  · rintro ⟨⟨hash, entry⟩, mem, rfl⟩
    exact ⟨hash, entry, (Assoc.mem_entries _ _ _).mp mem, rfl⟩
  · rintro ⟨hash, entry, found, rfl⟩
    exact ⟨⟨hash, entry⟩, (Assoc.mem_entries _ _ _).mpr found, rfl⟩

theorem sortedTxs_distinct [TxHasher] (pool : CTxMemPool)
    (keyed : ∀ hash entry, pool.mapTx.lookup hash = some entry → entry.tx.getHash = hash) :
    (pool.sortedTxs.map CTransaction.getHash).Nodup := by
  let sorted := pool.mapTx.entries.insertionSort fun a b => a.1 ≤ b.1
  have perm : sorted.Perm pool.mapTx.entries := List.perm_insertionSort _ _
  have hashes : pool.sortedTxs.map CTransaction.getHash = sorted.map Sigma.fst := by
    rw [CTxMemPool.sortedTxs, List.map_map]
    refine List.map_congr_left fun item mem => ?_
    exact keyed item.1 item.2 ((Assoc.mem_entries _ _ _).mp (perm.mem_iff.mp mem))
  rw [hashes, (perm.map Sigma.fst).nodup_iff]
  exact pool.mapTx.nodupKeys

end pool

section gathered

variable [TxHasher]

/-- The pool's transactions so far: those that may go into the block at once stand in the queue, and
the others under the ones that they wait for, each with its fee rate. -/
structure Sorted (txs : List CTransaction) (gathered : Gathered P) : Prop where
  live : ∀ p ∈ gathered.vOrphan, p ∈ gathered.memory.live
  separate : gathered.vOrphan.Nodup
  ready : gathered.vecPriority.map TxPriority.ptx = txs.filter fun tx => miner.parents tx = ∅
  waiting : (gathered.vOrphan.map fun p => (gathered.memory.content p).ptx) =
    txs.filter fun tx => miner.parents tx ≠ ∅
  setDependsOn : ∀ p ∈ gathered.vOrphan,
    (gathered.memory.content p).setDependsOn = miner.parents (gathered.memory.content p).ptx
  dependers : ∀ hash p, p ∈ dependersOf gathered.mapDependers hash ↔
    p ∈ gathered.vOrphan ∧ hash ∈ miner.parents (gathered.memory.content p).ptx
  rates : ∀ top ∈ gathered.vecPriority, miner.Rated top
  orphanRates : ∀ p ∈ gathered.vOrphan, miner.Rated (gathered.memory.content p).queued

variable {miner} {txs : List CTransaction} {gathered : Gathered P}

theorem Sorted.wait (sorted : miner.Sorted txs gathered) (tx : CTransaction)
    (some_parents : miner.parents tx ≠ ∅) (porphan : Nat) (next : Gathered P)
    (fresh : porphan ∉ gathered.memory.live) (vOrphan : next.vOrphan = gathered.vOrphan ++ [porphan])
    (live : next.memory.live = insert porphan gathered.memory.live)
    (others : ∀ q, q ≠ porphan → next.memory.content q = gathered.memory.content q)
    (ptx : (next.memory.content porphan).ptx = tx)
    (setDependsOn : (next.memory.content porphan).setDependsOn = miner.parents tx)
    (dependers : ∀ hash q, q ∈ dependersOf next.mapDependers hash ↔
      q ∈ dependersOf gathered.mapDependers hash ∨ q = porphan ∧ hash ∈ miner.parents tx)
    (rate : miner.Rated (next.memory.content porphan).queued)
    (vecPriority : next.vecPriority = gathered.vecPriority) :
    miner.Sorted (txs ++ [tx]) next := by
  have new (p : Nat) (mem : p ∈ gathered.vOrphan) : p ≠ porphan :=
    ne_of_mem_of_not_mem (sorted.live p mem) fresh
  have old (p : Nat) (mem : p ∈ gathered.vOrphan) :
      next.memory.content p = gathered.memory.content p := others p (new p mem)
  refine ⟨fun p mem => ?_, ?_, ?_, ?_, fun p mem => ?_, fun hash p => ?_, ?_, fun p mem => ?_⟩
  · rw [vOrphan, List.mem_append, List.mem_singleton] at mem
    rw [live, Finset.mem_insert]
    exact mem.symm.imp id (sorted.live p)
  · rw [vOrphan]
    exact List.nodup_append.mpr ⟨sorted.separate, List.nodup_singleton _, fun p mem q is =>
      (List.mem_singleton.mp is) ▸ new p mem⟩
  · simp [vecPriority, sorted.ready, some_parents, List.filter_append]
  · have same : (gathered.vOrphan.map fun p => (next.memory.content p).ptx) =
        gathered.vOrphan.map fun p => (gathered.memory.content p).ptx :=
      List.map_congr_left fun p mem => by rw [old p mem]
    rw [vOrphan, List.map_append, same, sorted.waiting, List.filter_append, List.map_singleton, ptx]
    simp [some_parents]
  · rw [vOrphan, List.mem_append, List.mem_singleton] at mem
    rcases mem with mem | rfl
    · rw [old p mem]
      exact sorted.setDependsOn p mem
    · rw [ptx, setDependsOn]
  · rw [dependers, sorted.dependers, vOrphan, List.mem_append, List.mem_singleton]
    constructor
    · rintro (⟨mem, waits⟩ | ⟨rfl, waits⟩)
      · rw [old p mem]
        exact ⟨.inl mem, waits⟩
      · rw [ptx]
        exact ⟨.inr rfl, waits⟩
    · rintro ⟨mem | rfl, waits⟩
      · rw [old p mem] at waits
        exact .inl ⟨mem, waits⟩
      · rw [ptx] at waits
        exact .inr ⟨rfl, waits⟩
  · rw [vecPriority]
    exact sorted.rates
  · rw [vOrphan, List.mem_append, List.mem_singleton] at mem
    rcases mem with mem | rfl
    · rw [old p mem]
      exact sorted.orphanRates p mem
    · exact rate

theorem Sorted.gatherTx (sorted : miner.Sorted txs gathered) (minable : miner.Minable)
    (tx : CTransaction) (held : miner.pool.Holds tx) (eligible : miner.eligible tx = true) :
    ∃ next, miner.gatherTx gathered tx = some next ∧ miner.Sorted (txs ++ [tx]) next := by
  have start : miner.Scanned tx gathered [] ⟨gathered, none, miner.rules.zero, 0, false⟩ :=
    ⟨rfl, rfl, rfl, rfl, .inl ⟨rfl, rfl, rfl⟩⟩
  obtain ⟨scan, ran, scanned⟩ := start.run tx.vin (minable.onChain tx held) (minable.inPool tx held)
  rw [List.nil_append] at scanned
  obtain ⟨nValueOut, valueOut⟩ := Option.isSome_iff_exists.mp (minable.valued tx held)
  have rate : feeRateOf (scan.nTotalIn + (miner.pool.applyDeltas tx.getHash).2 - nValueOut)
      tx.getSerializeSize = miner.feeRate tx := by
    rw [Miner.feeRate, scanned.total, valueOut, Option.getD_some]
  have priority : miner.rules.addDelta (computePriority miner.rules tx scan.dPriority tx.getSerializeSize)
      (miner.pool.applyDeltas tx.getHash).1 = miner.priority tx := by
    rw [Miner.priority, scanned.priority]
  rw [Miner.gatherTx, eligible, Bool.not_true, if_neg Bool.false_ne_true, ran, Option.bind_some]
  simp only [gatherScanned, scanned.found, Bool.false_eq_true, if_false, valueOut, bind, Option.bind, pure]
  rcases scanned.state with ⟨no_parents, no_orphan, same⟩ | ⟨some_parents, porphan, waiting⟩
  · have ready : miner.parents tx = ∅ := no_parents
    rw [no_orphan, same]
    refine ⟨_, rfl, sorted.live, sorted.separate, ?_, ?_, sorted.setDependsOn, sorted.dependers,
      fun top mem => ?_, sorted.orphanRates⟩
    · simp [sorted.ready, ready, List.filter_append]
    · simp [sorted.waiting, ready, List.filter_append]
    · rcases List.mem_append.mp mem with mem | mem
      · exact sorted.rates top mem
      · rw [List.mem_singleton.mp mem]
        exact ⟨rate, priority⟩
  · have waits : miner.parents tx ≠ ∅ := some_parents
    have live : porphan ∈ scan.gathered.memory.live := by
      rw [waiting.live]
      exact Finset.mem_insert_self _ _
    rw [waiting.current]
    simp only [Heap.Memory.deref_live _ _ live]
    refine ⟨_, rfl, sorted.wait tx waits porphan _ waiting.fresh waiting.vOrphan waiting.live
      (fun q other => (Function.update_of_ne other _ _).trans (waiting.others q other)) ?_ ?_
      waiting.dependers ?_ scanned.vecPriority⟩
    · simp only [Heap.Memory.assign, Function.update_self]
      exact waiting.ptx
    · simp only [Heap.Memory.assign, Function.update_self]
      exact waiting.setDependsOn
    · simp only [Heap.Memory.assign, Function.update_self, COrphan.queued, waiting.ptx]
      exact ⟨rate, priority⟩

theorem sorted_none : miner.Sorted [] miner.noOrphans where
  live := fun _ mem => absurd mem List.not_mem_nil
  separate := List.nodup_nil
  ready := rfl
  waiting := rfl
  setDependsOn := fun _ mem => absurd mem List.not_mem_nil
  dependers := fun hash p => by simp [dependersOf, noOrphans]
  rates := fun _ mem => absurd mem List.not_mem_nil
  orphanRates := fun _ mem => absurd mem List.not_mem_nil

def eligibleTxs (miner : Miner P) : List CTransaction := miner.pool.sortedTxs.filter miner.eligible

theorem gather_sorted (minable : miner.Minable) :
    ∃ gathered, miner.gather = some gathered ∧ miner.Sorted miner.eligibleTxs gathered := by
  have run (txs before : List CTransaction) (gathered : Gathered P)
      (held : ∀ tx ∈ txs, miner.pool.Holds tx)
      (sorted : miner.Sorted (before.filter miner.eligible) gathered) :
      ∃ final, txs.foldlM miner.gatherTx gathered = some final ∧
        miner.Sorted ((before ++ txs).filter miner.eligible) final := by
    induction txs generalizing before gathered with
    | nil => exact ⟨gathered, rfl, by rwa [List.append_nil]⟩
    | cons tx txs ih =>
        obtain ⟨here, later⟩ := List.forall_mem_cons.mp held
        have next : ∃ next, miner.gatherTx gathered tx = some next ∧
            miner.Sorted ((before ++ [tx]).filter miner.eligible) next := by
          rw [List.filter_append]
          cases eligible : miner.eligible tx with
          | true =>
              have alone : [tx].filter miner.eligible = [tx] := by simp [eligible]
              rw [alone]
              exact sorted.gatherTx minable tx here eligible
          | false =>
              have none : [tx].filter miner.eligible = [] := by simp [eligible]
              rw [none, List.append_nil]
              exact ⟨gathered, by rw [Miner.gatherTx, eligible]; rfl, sorted⟩
        obtain ⟨next, taken, now⟩ := next
        obtain ⟨final, ran, all⟩ := ih (before ++ [tx]) next later now
        rw [List.append_assoc, List.singleton_append] at all
        exact ⟨final, by rw [List.foldlM_cons, taken]; exact ran, all⟩
  exact run miner.pool.sortedTxs [] miner.noOrphans (fun tx mem => (mem_sortedTxs _ tx).mp mem) sorted_none

end gathered

end Miner

end CryptoYen
