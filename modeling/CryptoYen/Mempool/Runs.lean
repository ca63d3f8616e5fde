import CryptoYen.Library.Machine
import CryptoYen.Mempool.Accept
import CryptoYen.Mempool.Consistency

set_option autoImplicit false

namespace CryptoYen

namespace CTxMemPool

inductive Op
  | acceptToMemoryPool (ctx : MempoolContext) (flags : AcceptFlags) (tx : CTransaction)
  | removeForBlock (vtx : List CTransaction)
  | removeConflicts (tx : CTransaction)
  | removeCoinbaseSpends (params : CChainParams) (pcoins : CCoinsView) (nMemPoolHeight : Nat)
  | remove (tx : CTransaction) (fRecursive : Bool)
  | clear

variable [TxHasher]

def step (pool : CTxMemPool) : Op → Option CTxMemPool
  | .acceptToMemoryPool ctx flags tx => some (CryptoYen.acceptToMemoryPool ctx flags pool tx).pool
  | .removeForBlock vtx => some (pool.removeForBlock vtx []).1
  | .removeConflicts tx => some (pool.removeConflicts tx []).1
  | .removeCoinbaseSpends params pcoins nMemPoolHeight =>
      pool.removeCoinbaseSpends params pcoins nMemPoolHeight
  | .remove tx fRecursive => some (pool.remove tx [] fRecursive).1
  | .clear => some pool.clear

/-- A transaction that passes the checks spends nothing twice and nothing that the pool spends. -/
def Conflictless (pool : CTxMemPool) : Op → Prop
  | .acceptToMemoryPool ctx flags tx =>
      ∀ entry, acceptChecks ctx flags pool tx = .ok entry → pool.Free tx
  | _ => True

theorem acceptChecks_entry (ctx : MempoolContext) (flags : AcceptFlags) (pool : CTxMemPool)
    (tx : CTransaction) (entry : CTxMemPoolEntry)
    (accepted : acceptChecks ctx flags pool tx = .ok entry) :
    pool.mapTx.lookup tx.getHash = none ∧ entry.tx = tx := by
  simp only [acceptChecks, Except.bind_ok, exists_unit, Except.pure_ok] at accepted
  obtain ⟨loose, nFees, _, _, stored⟩ := accepted
  simp only [checkLooseTx, Except.bind_ok, exists_unit, require_ok] at loose
  obtain ⟨_, _, _, _, _, unknown, _⟩ := loose
  refine ⟨?_, by rw [← stored]; rfl⟩
  simpa [existsTx] using unknown

theorem prioritised_maps (ctx : MempoolContext) (pool : CTxMemPool) (tx : CTransaction) :
    ∃ mapDeltas, prioritised ctx pool tx = { pool with mapDeltas := mapDeltas } := by
  unfold prioritised
  split
  next =>
    split
    next => exact ⟨_, rfl⟩
    next => exact ⟨pool.mapDeltas, rfl⟩
  next => exact ⟨pool.mapDeltas, rfl⟩

theorem acceptToMemoryPool_indexed (ctx : MempoolContext) (flags : AcceptFlags)
    (pool : CTxMemPool) (tx : CTransaction) (indexed : pool.Indexed)
    (conflictless : pool.Conflictless (.acceptToMemoryPool ctx flags tx)) :
    (CryptoYen.acceptToMemoryPool ctx flags pool tx).pool.Indexed := by
  obtain ⟨mapDeltas, same⟩ := prioritised_maps ctx pool tx
  unfold CryptoYen.acceptToMemoryPool
  rw [same]
  cases checked : acceptChecks ctx flags pool tx with
  | error failure => exact mapDeltas_indexed pool mapDeltas indexed
  | ok entry =>
      obtain ⟨absent, rfl⟩ := acceptChecks_entry ctx flags pool tx entry checked
      have free := conflictless entry checked
      exact addUnchecked_indexed _ _ entry absent rfl ⟨free.distinct, free.unspent⟩
        (mapDeltas_indexed pool mapDeltas indexed)

theorem step_indexed (pool : CTxMemPool) (op : Op) (next : CTxMemPool) (indexed : pool.Indexed)
    (conflictless : pool.Conflictless op) (stepped : pool.step op = some next) : next.Indexed := by
  cases op with
  | acceptToMemoryPool ctx flags tx =>
      cases stepped
      exact acceptToMemoryPool_indexed ctx flags pool tx indexed conflictless
  | removeForBlock vtx =>
      cases stepped
      exact removeForBlock_indexed pool vtx [] indexed
  | removeConflicts tx =>
      cases stepped
      exact removeConflicts_indexed pool tx [] indexed
  | removeCoinbaseSpends params pcoins nMemPoolHeight =>
      exact removeCoinbaseSpends_indexed pool params pcoins nMemPoolHeight next indexed stepped
  | remove tx fRecursive =>
      cases stepped
      exact remove_indexed pool tx [] fRecursive indexed
  | clear =>
      cases stepped
      exact clear_indexed pool

-- In a run without a conflicting acceptance the pool stays consistent.
theorem conflictless_run_consistent (fSanityCheck : Bool) (ops : List Op) (final : CTxMemPool)
    (conflictless : Machine.Along Conflictless step (empty fSanityCheck) ops)
    (ran : Machine.run step (empty fSanityCheck) ops = some final) : final.Consistent := by
  apply Indexed.consistent
  apply Machine.run_invariant step Conflictless Indexed _ (empty fSanityCheck) final ops
    (empty_indexed fSanityCheck) conflictless ran
  intro pool op next indexed allowed stepped
  exact step_indexed pool op next indexed allowed stepped

end CTxMemPool

namespace DoubleSpend

open CTxMemPool

@[reducible] def valueHasher : TxHasher := ⟨fun tx => BitVec.ofInt 256 (tx.vout.map CTxOut.nValue).sum⟩

def coin : CCoins where
  fCoinBase := false
  fCoinStake := false
  vout := [⟨COIN, [0x51]⟩]
  nHeight := 1
  nVersion := 1

def spending (nValue : Int) : CTransaction where
  nVersion := 1
  vin := [⟨⟨1, 0⟩, [], 0xffffffff⟩]
  vout := [⟨nValue, [0x51]⟩]
  nLockTime := 0

def tip : CChain := [⟨9, 2, 5, 1613150297, 0x1e0fffff, 0⟩]

def context : MempoolContext where
  params := CChainParams.regTestParams
  chainActive := tip
  mapBlockIndex := fun hash => if hash = 9 then some tip else none
  mapLockedInputs := fun _ => none
  nAdjustedTime := 1613150400
  fInitialBlockDownload := false
  nMaxReorgDepth := 100
  nScriptCheckThreads := 0
  verifyScript := fun _ _ _ _ => none
  pcoinsTip := ⟨fun txid => if txid = 1 then some (CleanCoins.of coin) else none, 9⟩
  nTime := 1613150400
  nSatoshisPerK := 10000
  fRelayPriority := true
  isStandardTx := fun _ => none
  areInputsStandard := fun _ _ => true
  mapObfuscationBroadcastTxes := fun _ => false
  allowFree := fun _ _ => false
  rateLimited := fun _ => false

def flags : AcceptFlags := ⟨true, true, false⟩

def entry (nValue : Int) : CTxMemPoolEntry :=
  newEntry context (spending nValue) (COIN - nValue)

def ops : List Op :=
  [.acceptToMemoryPool context flags (spending 99900000),
    .acceptToMemoryPool context flags (spending 99800000)]

def pool : CTxMemPool :=
  (@acceptToMemoryPool valueHasher context flags
    (@acceptToMemoryPool valueHasher context flags (empty false) (spending 99900000)).pool
    (spending 99800000)).pool

theorem holds_both :
    pool.mapTx.lookup 99900000 = some (entry 99900000) ∧
      pool.mapTx.lookup 99800000 = some (entry 99800000) := by
  decide

def child : CTransaction where
  nVersion := 1
  vin := [⟨⟨99900000, 0⟩, [], 0xffffffff⟩]
  vout := [⟨99800000, [0x51]⟩]
  nLockTime := 0

def chained : List Op :=
  [.acceptToMemoryPool context flags (spending 99900000), .acceptToMemoryPool context flags child,
    .removeForBlock [spending 99900000], .remove (spending 99900000) true]

example : (Machine.run (@CTxMemPool.step valueHasher) (empty false) (chained.take 2)).map
    CTxMemPool.sortedTxs = some [child, spending 99900000] := by
  decide +kernel

end DoubleSpend

theorem doubleSpend_inconsistent :
    ¬ ∀ final, Machine.run (@CTxMemPool.step DoubleSpend.valueHasher) (CTxMemPool.empty false)
      DoubleSpend.ops = some final → final.Consistent := by
  intro consistent
  have disjoint := (consistent DoubleSpend.pool rfl).disjoint
  obtain ⟨first, second⟩ := DoubleSpend.holds_both
  have same := disjoint _ _ 0 0 ⟨1, 0⟩ ⟨_, _, first, rfl⟩ ⟨_, _, second, rfl⟩ rfl rfl
  exact absurd same.1 (by decide)

theorem conflictless_run_consistent_single :
    ∃ final, Machine.run (@CTxMemPool.step DoubleSpend.valueHasher) (CTxMemPool.empty false)
      DoubleSpend.chained = some final ∧ final.Consistent := by
  refine ⟨_, rfl, @CTxMemPool.conflictless_run_consistent DoubleSpend.valueHasher false
    DoubleSpend.chained _ ?_ rfl⟩
  refine ⟨fun entry _ => ⟨by decide, fun out _ => rfl⟩, fun first accepted => ?_⟩
  cases accepted
  refine ⟨fun entry _ => ⟨by decide, by decide⟩, fun _ _ => ⟨trivial, fun _ _ => ⟨trivial, ?_⟩⟩⟩
  exact fun _ _ => trivial

end CryptoYen
