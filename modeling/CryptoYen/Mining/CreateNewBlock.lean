import CryptoYen.Consensus.CheckInputs
import CryptoYen.Library.Heap
import CryptoYen.Mempool.Pool

set_option autoImplicit false

namespace CryptoYen

/-- The arithmetic of the priorities, which are doubles. -/
structure PriorityRules (P : Type) where
  zero : P
  -- dPriority += (double)nValueIn * nConf
  addInput : P → Int → Int → P
  -- The quotient of ComputePriority.
  divide : P → Nat → P
  addDelta : P → Int → P
  allowFree : P → Bool
  less : P → P → Bool
  equal : P → P → Bool

structure TxPriority (P : Type) where
  dPriority : P
  feeRate : Int
  ptx : CTransaction

structure COrphan (P : Type) where
  ptx : CTransaction
  setDependsOn : Finset Uint256
  feeRate : Int
  dPriority : P

def TxPriorityCompare {P : Type} (rules : PriorityRules P) (byFee : Bool) (a b : TxPriority P) : Bool :=
  if byFee then
    if a.feeRate = b.feeRate then rules.less a.dPriority b.dPriority else a.feeRate < b.feeRate
  else if rules.equal a.dPriority b.dPriority then a.feeRate < b.feeRate
  else rules.less a.dPriority b.dPriority

/-- pop_heap and pop_back on what make_heap and push_heap have arranged: some element comes off. -/
structure HeapQueue (P : Type) where
  pop : (TxPriority P → TxPriority P → Bool) → List (TxPriority P) →
    Option (TxPriority P × List (TxPriority P))
  pop_nil : ∀ comparer, pop comparer [] = none
  pop_perm : ∀ comparer queue, queue ≠ [] →
    ∃ top rest, pop comparer queue = some (top, rest) ∧ (top :: rest).Perm queue

structure Miner (P : Type) extends NodeContext where
  pool : CTxMemPool
  pcoinsTip : CCoinsView
  rules : PriorityRules P
  heap : HeapQueue P
  allocator : Heap.Allocator
  nBlockMaxSize : Nat
  nBlockPrioritySize : Nat
  nBlockMinSize : Nat
  minRelayTxFee : Int

-- CFeeRate(nFeePaid, nSize), where the division is one of unsigned numbers.
def feeRateOf (nFeePaid : Int) (nSize : Nat) : Int :=
  if nSize = 0 then 0
  else
    let nSatoshisPerK : Int := (nFeePaid * 1000 % 2 ^ 64) / nSize
    if nSatoshisPerK < 2 ^ 63 then nSatoshisPerK else nSatoshisPerK - 2 ^ 64

def calculateModifiedSize (tx : CTransaction) (nTxSize : Nat) : Nat :=
  tx.vin.foldl (fun nTxSize txin =>
    let offset := 41 + min 110 txin.scriptSig.length
    if offset < nTxSize then nTxSize - offset else nTxSize)
    (if nTxSize = 0 then tx.getSerializeSize else nTxSize)

def computePriority {P : Type} (rules : PriorityRules P) (tx : CTransaction) (dPriorityInputs : P)
    (nTxSize : Nat) : P :=
  let nTxSize := calculateModifiedSize tx nTxSize
  if nTxSize = 0 then rules.zero else rules.divide dPriorityInputs nTxSize

structure Gathered (P : Type) where
  -- The nodes of the list, each under its address.
  vOrphan : List Nat
  memory : Heap.Memory (COrphan P)
  mapDependers : AList fun _ : Uint256 => List Nat
  vecPriority : List (TxPriority P)

structure InputScan (P : Type) where
  gathered : Gathered P
  porphan : Option Nat
  dPriority : P
  nTotalIn : Int
  fMissingInputs : Bool

structure Assembly (P : Type) where
  view : CCoinsView
  memory : Heap.Memory (COrphan P)
  vecPriority : List (TxPriority P)
  fSortedByFee : Bool
  vtx : List CTransaction
  vTxFees : List Int
  vTxSigOps : List Nat
  nBlockSize : Nat
  nBlockTx : Nat
  nBlockSigOps : Nat
  nFees : Int

namespace Miner

variable {P : Type} (miner : Miner P)

def nHeight : Int := miner.chainActive.height + 1

section gathering

def orphanFor (tx : CTransaction) (scan : InputScan P) : InputScan P × Nat :=
  match scan.porphan with
  | some porphan => (scan, porphan)
  | none =>
      let porphan := miner.allocator.new scan.gathered.memory.live
      ({ scan with
        porphan := some porphan
        gathered := { scan.gathered with
          vOrphan := scan.gathered.vOrphan ++ [porphan]
          memory := scan.gathered.memory.allocate porphan ⟨tx, ∅, 0, miner.rules.zero⟩ } }, porphan)

def dependersOf (mapDependers : AList fun _ : Uint256 => List Nat) (hash : Uint256) : List Nat :=
  (mapDependers.lookup hash).getD []

def scanParent (tx : CTransaction) (prevout : COutPoint) (parent : CTxMemPoolEntry)
    (scan : InputScan P) : Option (InputScan P) := do
  let (scan, porphan) := miner.orphanFor tx scan
  let orphan ← scan.gathered.memory.deref porphan
  let txout ← parent.tx.vout[prevout.n]?
  return { scan with
    gathered := { scan.gathered with
      mapDependers := scan.gathered.mapDependers.insert prevout.hash
        (dependersOf scan.gathered.mapDependers prevout.hash ++ [porphan])
      memory := scan.gathered.memory.assign porphan
        { orphan with setDependsOn := insert prevout.hash orphan.setDependsOn } }
    nTotalIn := scan.nTotalIn + txout.nValue }

-- This should never happen. vOrphan.pop_back() leaves the pointers in mapDependers.
def scanMissing (scan : InputScan P) : InputScan P :=
  { scan with
    fMissingInputs := true
    gathered :=
      match scan.porphan, scan.gathered.vOrphan.getLast? with
      | some _, some back => { scan.gathered with
          vOrphan := scan.gathered.vOrphan.dropLast
          memory := scan.gathered.memory.free back }
      | _, _ => scan.gathered }

/-- One input; none is a read past the end of a vector or through a dangling pointer. -/
def scanInput (tx : CTransaction) (scan : InputScan P) (txin : CTxIn) : Option (InputScan P) :=
  -- The loop was left.
  if scan.fMissingInputs then some scan
  else if !miner.pcoinsTip.haveCoins txin.prevout.hash then
    match miner.pool.mapTx.lookup txin.prevout.hash with
    | none => some (scanMissing scan)
    | some parent => miner.scanParent tx txin.prevout parent scan
  else
    let coins := miner.pcoinsTip.record txin.prevout.hash
    (coins.vout[txin.prevout.n]?).map fun txout =>
      { scan with
        nTotalIn := scan.nTotalIn + txout.nValue
        dPriority := miner.rules.addInput scan.dPriority txout.nValue (miner.nHeight - coins.nHeight) }

def gatherScanned [TxHasher] (tx : CTransaction) (scan : InputScan P) : Option (Gathered P) := do
  if scan.fMissingInputs then return scan.gathered
  let nTxSize := tx.getSerializeSize
  let deltas := miner.pool.applyDeltas tx.getHash
  let dPriority := miner.rules.addDelta (computePriority miner.rules tx scan.dPriority nTxSize) deltas.1
  let nValueOut ← tx.getValueOut
  let feeRate := feeRateOf (scan.nTotalIn + deltas.2 - nValueOut) nTxSize
  match scan.porphan with
  | some porphan =>
      let orphan ← scan.gathered.memory.deref porphan
      return { scan.gathered with
        memory := scan.gathered.memory.assign porphan { orphan with dPriority, feeRate } }
  | none =>
      return { scan.gathered with vecPriority := scan.gathered.vecPriority ++ [⟨dPriority, feeRate, tx⟩] }

def eligible (tx : CTransaction) : Bool :=
  !(tx.isCoinBase || tx.isCoinStake || !isFinalTx miner.toNodeContext tx miner.nHeight 0)

def gatherTx [TxHasher] (gathered : Gathered P) (tx : CTransaction) : Option (Gathered P) :=
  if !miner.eligible tx then some gathered
  else
    (tx.vin.foldlM (miner.scanInput tx) ⟨gathered, none, miner.rules.zero, 0, false⟩).bind
      (miner.gatherScanned tx)

def noOrphans : Gathered P :=
  ⟨[], ⟨∅, fun _ => ⟨⟨0, [], [], 0⟩, ∅, 0, miner.rules.zero⟩⟩, ∅, []⟩

def gather [TxHasher] : Option (Gathered P) :=
  miner.pool.sortedTxs.foldlM miner.gatherTx miner.noOrphans

end gathering

section filling

def releaseOne (hash : Uint256) (state : Heap.Memory (COrphan P) × List (TxPriority P))
    (porphan : Nat) : Option (Heap.Memory (COrphan P) × List (TxPriority P)) :=
  (state.1.deref porphan).map fun orphan =>
    if orphan.setDependsOn = ∅ then state
    else
      let setDependsOn := orphan.setDependsOn.erase hash
      (state.1.assign porphan { orphan with setDependsOn },
        if setDependsOn = ∅ then state.2 ++ [⟨orphan.dPriority, orphan.feeRate, orphan.ptx⟩]
        else state.2)

def release (mapDependers : AList fun _ : Uint256 => List Nat) (hash : Uint256) (state : Assembly P) :
    Option (Assembly P) :=
  ((dependersOf mapDependers hash).foldlM (releaseOne hash) (state.memory, state.vecPriority)).map
    fun released => { state with memory := released.1, vecPriority := released.2 }

variable [TxHasher]

def add (tx : CTransaction) (nTxFees : Int) (nTxSigOps : Nat) (view : CCoinsView) (state : Assembly P) :
    Assembly P :=
  { state with
    view
    vtx := state.vtx ++ [tx]
    vTxFees := state.vTxFees ++ [nTxFees]
    vTxSigOps := state.vTxSigOps ++ [nTxSigOps]
    nBlockSize := state.nBlockSize + tx.getSerializeSize
    nBlockTx := state.nBlockTx + 1
    nBlockSigOps := state.nBlockSigOps + nTxSigOps
    nFees := state.nFees + nTxFees }

def skipsFree (top : TxPriority P) (state : Assembly P) : Bool :=
  let deltas := miner.pool.applyDeltas top.ptx.getHash
  state.fSortedByFee && decide (deltas.1 ≤ 0) && decide (deltas.2 ≤ 0) &&
    decide (top.feeRate < miner.minRelayTxFee) &&
    decide (miner.nBlockMinSize ≤ state.nBlockSize + top.ptx.getSerializeSize)

/-- The inputs and the scripts of the transaction, and its effect. None is an assertion that fails,
or the exception of GetValueOut. -/
def tryAdd (mapDependers : AList fun _ : Uint256 => List Nat) (tx : CTransaction) (nTxSigOps : Nat)
    (state : Assembly P) : Option (Assembly P) :=
  if !state.view.haveInputs tx then some state
  else do
    let nValueIn ← state.view.getValueIn tx
    let nValueOut ← tx.getValueOut
    let nP2SHSigOps ← getP2SHSigOpCount tx state.view
    let nTxSigOps := nTxSigOps + nP2SHSigOps
    if MAX_BLOCK_SIGOPS ≤ state.nBlockSigOps + nTxSigOps then some state
    else
      match checkInputs miner.toNodeContext tx state.view true MANDATORY_SCRIPT_VERIFY_FLAGS with
      | .error .assertion => none
      | .error _ => some state
      | .ok () =>
          (state.view.updateCoins tx miner.nHeight.toNat).bind fun updated =>
            release mapDependers tx.getHash (add tx (nValueIn - nValueOut) nTxSigOps updated.1 state)

def consider (mapDependers : AList fun _ : Uint256 => List Nat) (top : TxPriority P)
    (state : Assembly P) : Option (Assembly P) :=
  let nTxSize := top.ptx.getSerializeSize
  -- Size limits
  if miner.nBlockMaxSize ≤ state.nBlockSize + nTxSize then some state
  else
    -- Legacy limits on sigOps
    let nTxSigOps := getLegacySigOpCount top.ptx
    if MAX_BLOCK_SIGOPS ≤ state.nBlockSigOps + nTxSigOps then some state
    else if miner.skipsFree top state then some state
    else
      -- Prioritise by fee once past the priority size or we run out of high-priority transactions
      let fSortedByFee := state.fSortedByFee ||
        (decide (miner.nBlockPrioritySize ≤ state.nBlockSize + nTxSize) ||
          !miner.rules.allowFree top.dPriority)
      miner.tryAdd mapDependers top.ptx nTxSigOps { state with fSortedByFee }

-- while (!vecPriority.empty()); none is also a loop that does not end.
def fill (mapDependers : AList fun _ : Uint256 => List Nat) : Nat → Assembly P → Option (Assembly P)
  | fuel, state =>
      match miner.heap.pop (TxPriorityCompare miner.rules state.fSortedByFee) state.vecPriority with
      | none => some state
      | some (top, vecPriority) =>
          match fuel with
          | 0 => none
          | fuel + 1 =>
              (miner.consider mapDependers top { state with vecPriority }).bind (fill mapDependers fuel)

def emptyBlock (gathered : Gathered P) : Assembly P where
  view := miner.pcoinsTip
  memory := gathered.memory
  vecPriority := gathered.vecPriority
  fSortedByFee := decide (miner.nBlockPrioritySize = 0)
  vtx := []
  vTxFees := []
  vTxSigOps := []
  nBlockSize := 1000
  nBlockTx := 0
  nBlockSigOps := 100
  nFees := 0

def createNewBlock : Option (Assembly P) :=
  miner.gather.bind fun gathered =>
    miner.fill gathered.mapDependers miner.pool.sortedTxs.length (miner.emptyBlock gathered)

end filling

end Miner

end CryptoYen
