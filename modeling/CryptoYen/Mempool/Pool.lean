import Mathlib.Data.BitVec
import Mathlib.Data.List.Sort
import CryptoYen.Coins.View
import CryptoYen.Consensus.Params
import CryptoYen.Library.Assoc

set_option autoImplicit false

namespace CryptoYen

def MEMPOOL_HEIGHT : Nat := 0x7FFFFFFF

structure CTxMemPoolEntry where
  tx : CTransaction
  nFee : Int
  nTxSize : Nat
  nTime : Int
  nHeight : Int
  deriving DecidableEq

structure CInPoint where
  ptx : CTransaction
  n : Nat
  deriving DecidableEq

structure CTxMemPool where
  fSanityCheck : Bool
  totalTxSize : BitVec 64
  mapTx : AList fun _ : Uint256 => CTxMemPoolEntry
  mapNextTx : AList fun _ : COutPoint => CInPoint
  mapDeltas : AList fun _ : Uint256 => Int × Int

namespace CTxMemPool

def empty (fSanityCheck : Bool) : CTxMemPool := ⟨fSanityCheck, 0, ∅, ∅, ∅⟩

variable (pool : CTxMemPool)

def existsTx (hash : Uint256) : Bool := (pool.mapTx.lookup hash).isSome

def markInputs (tx : CTransaction) (mapNextTx : AList fun _ : COutPoint => CInPoint) :
    AList fun _ : COutPoint => CInPoint :=
  tx.vin.zipIdx.foldl (fun map input => map.insert input.1.prevout ⟨tx, input.2⟩) mapNextTx

def addUnchecked (hash : Uint256) (entry : CTxMemPoolEntry) : CTxMemPool :=
  { pool with
    mapTx := pool.mapTx.insert hash entry
    mapNextTx := markInputs entry.tx pool.mapNextTx
    totalTxSize := pool.totalTxSize + BitVec.ofNat 64 entry.nTxSize }

def prioritiseTransaction (hash : Uint256) (dPriorityDelta nFeeDelta : Int) : CTxMemPool :=
  let deltas := (pool.mapDeltas.lookup hash).getD (0, 0)
  { pool with
    mapDeltas :=
      pool.mapDeltas.insert hash (deltas.1 + dPriorityDelta, deltas.2 + nFeeDelta) }

def applyDeltas (hash : Uint256) : Int × Int := (pool.mapDeltas.lookup hash).getD (0, 0)

def clearPrioritisation (hash : Uint256) : CTxMemPool :=
  { pool with mapDeltas := pool.mapDeltas.erase hash }

def spenders [TxHasher] (hash : Uint256) (nOutputs : Nat) : List Uint256 :=
  (List.range nOutputs).filterMap fun i =>
    (pool.mapNextTx.lookup ⟨hash, i⟩).map fun it => it.ptx.getHash

def removeEntry (hash : Uint256) (entry : CTxMemPoolEntry) : CTxMemPool :=
  { pool with
    mapNextTx := entry.tx.prevouts.foldl (fun map prevout => map.erase prevout) pool.mapNextTx
    totalTxSize := pool.totalTxSize - BitVec.ofNat 64 entry.nTxSize
    mapTx := pool.mapTx.erase hash }

-- The loop over the queue txToRemove: every pass takes an entry out of the pool or one off the
-- queue.
def removeLoop [TxHasher] (fRecursive : Bool) (pool : CTxMemPool) (txToRemove : List Uint256)
    (removed : List CTransaction) : CTxMemPool × List CTransaction :=
  match txToRemove with
  | [] => (pool, removed)
  | hash :: rest =>
      match _present : pool.mapTx.lookup hash with
      | none => removeLoop fRecursive pool rest removed
      | some entry =>
          removeLoop fRecursive (pool.removeEntry hash entry)
            (rest ++ if fRecursive then pool.spenders hash entry.tx.vout.length else [])
            (removed ++ [entry.tx])
termination_by (pool.mapTx.entries.length, txToRemove.length)
decreasing_by
  · exact Prod.Lex.right _ (Nat.lt_succ_self _)
  · exact Prod.Lex.left _ _ (Assoc.erase_length _ _ _ _present)

def remove [TxHasher] (origTx : CTransaction) (removed : List CTransaction) (fRecursive : Bool) :
    CTxMemPool × List CTransaction :=
  let hash := origTx.getHash
  let txToRemove :=
    if fRecursive && !pool.existsTx hash then hash :: pool.spenders hash origTx.vout.length
    else [hash]
  removeLoop fRecursive pool txToRemove removed

-- The iteration order of std::map.
def sortedTxs : List CTransaction :=
  (pool.mapTx.entries.insertionSort fun a b => a.1 ≤ b.1).map fun item => item.2.tx

-- Whether an input makes removeCoinbaseSpends take the transaction out; none if an assert fails.
def spendsImmature (params : CChainParams) (pcoins : CCoinsView) (nMemPoolHeight : Nat)
    (txin : CTxIn) : Option Bool :=
  if pool.existsTx txin.prevout.hash then some false
  else
    match pcoins.coins txin.prevout.hash with
    | none => if pool.fSanityCheck then none else some true
    | some coins =>
        let depth := ((nMemPoolHeight : Int) - coins.val.nHeight) % 2 ^ 32
        some ((coins.val.fCoinBase || coins.val.fCoinStake) && depth < params.nMaturity)

def anySpendsImmature (params : CChainParams) (pcoins : CCoinsView) (nMemPoolHeight : Nat) :
    List CTxIn → Option Bool
  | [] => some false
  | txin :: rest => do
      let immature ← pool.spendsImmature params pcoins nMemPoolHeight txin
      if immature then some true else anySpendsImmature params pcoins nMemPoolHeight rest

def removeAll [TxHasher] (pool : CTxMemPool) (txs : List CTransaction) : CTxMemPool :=
  txs.foldl (fun pool tx => (pool.remove tx [] true).1) pool

def removeCoinbaseSpends [TxHasher] (params : CChainParams) (pcoins : CCoinsView)
    (nMemPoolHeight : Nat) : Option CTxMemPool := do
  let transactionsToRemove ← pool.sortedTxs.filterM fun tx =>
    pool.anySpendsImmature params pcoins nMemPoolHeight tx.vin
  some (pool.removeAll transactionsToRemove)

def removeConflict [TxHasher] (tx : CTransaction) (state : CTxMemPool × List CTransaction)
    (txin : CTxIn) : CTxMemPool × List CTransaction :=
  match state.1.mapNextTx.lookup txin.prevout with
  | none => state
  | some it =>
      if it.ptx.getHash = tx.getHash then state else state.1.remove it.ptx state.2 true

def removeConflicts [TxHasher] (tx : CTransaction) (removed : List CTransaction) :
    CTxMemPool × List CTransaction :=
  tx.vin.foldl (removeConflict tx) (pool, removed)

def removeBlockTx [TxHasher] (state : CTxMemPool × List CTransaction) (tx : CTransaction) :
    CTxMemPool × List CTransaction :=
  let (pool, conflicts) := ((state.1.remove tx [] false).1).removeConflicts tx state.2
  (pool.clearPrioritisation tx.getHash, conflicts)

def removeForBlock [TxHasher] (vtx : List CTransaction) (conflicts : List CTransaction) :
    CTxMemPool × List CTransaction :=
  vtx.foldl removeBlockTx (pool, conflicts)

-- clear leaves the priority deltas alone.
def clear : CTxMemPool := { pool with mapTx := ∅, mapNextTx := ∅, totalTxSize := 0 }

def checkTotal : BitVec 64 := Assoc.sumBy (fun entry => BitVec.ofNat 64 entry.nTxSize) pool.mapTx

def Holds (tx : CTransaction) : Prop :=
  ∃ hash entry, pool.mapTx.lookup hash = some entry ∧ entry.tx = tx

end CTxMemPool

end CryptoYen
