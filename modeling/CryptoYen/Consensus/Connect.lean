import CryptoYen.Consensus.CheckBlock
import CryptoYen.Consensus.Supply

set_option autoImplicit false

namespace CryptoYen

/-- The index entry a block is connected at: pprev is its chain of ancestors, and the dummy entry of
TestBlockValidity has no hash. -/
structure ConnectIndex where
  phashBlock : Option Uint256
  nHeight : Nat
  nMoneySupply : Int
  pprev : CChain

structure ConnectState where
  view : CCoinsView
  nSigOps : Nat
  nFees : Int
  nValueIn : Int
  nValueOut : Int
  vtxundo : List CTxUndo
  fChecksPass : Bool

structure Connected where
  view : CCoinsView
  nMoneySupply : Int
  nExpectedMint : Option Int
  blockundo : Option (List CTxUndo)

def connectFlags : BitVec 32 := SCRIPT_VERIFY_P2SH ||| SCRIPT_VERIFY_DERSIG

-- CheckInputs with pvChecks leaves the script checks to the queue.
def queueScriptChecks (ctx : BlockContext) (view : CCoinsView) (fScriptChecks : Bool)
    (tx : CTransaction) : Except Failure Bool :=
  if fScriptChecks then do
    let errors ← tx.vin.zipIdx.mapM fun input =>
      scriptCheck ctx.toNodeContext view connectFlags tx input.2 input.1
    pure (errors.all Option.isNone)
  else pure true

def checkBlockInputs (ctx : BlockContext) (view : CCoinsView) (fScriptChecks : Bool)
    (tx : CTransaction) : Except Failure Bool :=
  if ctx.nScriptCheckThreads = 0 then do
    checkInputs ctx.toNodeContext tx view fScriptChecks connectFlags
    pure true
  else do
    checkInputsValue ctx.toNodeContext tx view
    queueScriptChecks ctx view fScriptChecks tx

def sigOpsLimit (nSigOps : Nat) : Check :=
  require (!(MAX_BLOCK_SIGOPS < nSigOps)) (.dos 100 REJECT_INVALID "bad-blk-sigops")

def txFees (view : CCoinsView) (tx : CTransaction) : Except Failure Int :=
  if tx.isCoinStake then pure 0
  else do
    let valueIn ← assertion (view.getValueIn tx)
    let valueOut ← assertion tx.getValueOut
    pure (valueIn - valueOut)

def connectInputs (ctx : BlockContext) (nHeight : Nat) (fScriptChecks : Bool)
    (state : ConnectState) (tx : CTransaction) : Except Failure ConnectState := do
  require (state.view.haveInputs tx)
    (.dos 100 REJECT_INVALID "bad-txns-inputs-missingorspent")
  require (tx.vin.all fun _ => validOutPoint ctx.params nHeight)
    (.dos 100 REJECT_INVALID "bad-txns-invalid-inputs")
  let p2shSigOps ← assertion (getP2SHSigOpCount tx state.view)
  sigOpsLimit (state.nSigOps + p2shSigOps)
  let fees ← txFees state.view tx
  let valueIn ← assertion (state.view.getValueIn tx)
  let pass ← checkBlockInputs ctx state.view fScriptChecks tx
  pure { state with
    nSigOps := state.nSigOps + p2shSigOps
    nFees := state.nFees + fees
    nValueIn := state.nValueIn + valueIn
    fChecksPass := state.fChecksPass && pass }

def connectUnlessCoinBase (ctx : BlockContext) (nHeight : Nat) (fScriptChecks : Bool)
    (state : ConnectState) (tx : CTransaction) : Except Failure ConnectState :=
  if tx.isCoinBase then pure state else connectInputs ctx nHeight fScriptChecks state tx

def connectTransaction [TxHasher] (ctx : BlockContext) (nHeight : Nat) (fScriptChecks : Bool)
    (state : ConnectState) (tx : CTransaction) : Except Failure ConnectState := do
  sigOpsLimit (state.nSigOps + getLegacySigOpCount tx)
  let state ← connectUnlessCoinBase ctx nHeight fScriptChecks
    { state with nSigOps := state.nSigOps + getLegacySigOpCount tx } tx
  let valueOut ← assertion tx.getValueOut
  let (view, txundo) ← assertion (state.view.updateCoins tx nHeight)
  pure { state with
    view := view
    nValueOut := state.nValueOut + valueOut
    vtxundo := state.vtxundo ++ [txundo] }

def ConnectState.start (view : CCoinsView) : ConnectState := ⟨view, 0, 0, 0, 0, [], true⟩

/-- BIP30 is only enforced for an entry without a hash. -/
def checkBIP30 [TxHasher] (pindex : ConnectIndex) (view : CCoinsView) (block : CBlock) : Check :=
  require
    (pindex.phashBlock.isSome || block.vtx.all fun tx => (view.record tx.getHash).isPruned)
    (.dos 100 REJECT_INVALID "bad-txns-BIP30")

def checkProofPeriod (params : CChainParams) (pindex : ConnectIndex) (block : CBlock) : Check :=
  require (!(pindex.nHeight ≤ params.nLastPOWBlock && block.isProofOfStake))
    (.dos 100 REJECT_INVALID "PoS-early")

-- PoW phase redistributed fees to miner. PoS stage destroys fees.
def expectedMint (ctx : BlockContext) (pprev : CBlockIndex) (block : CBlock) (nFees : Int) : Int :=
  getBlockValue ctx.params ctx.chainActive pprev.nHeight + if block.isProofOfWork then nFees else 0

def finishConnect (ctx : BlockContext) (pindex : ConnectIndex) (fJustCheck : Bool)
    (nExpectedMint : Int) (state : ConnectState) : Except Failure Connected :=
  let nMoneySupply := pindex.pprev.nMoneySupply + state.nValueOut - state.nValueIn
  if fJustCheck then pure ⟨state.view, nMoneySupply, some nExpectedMint, none⟩
  else do
    ctx.writeUndo
    let hash ← assertion pindex.phashBlock
    -- the first transaction has a dummy for its undo data
    pure ⟨state.view.setBestBlock hash, nMoneySupply, some nExpectedMint, some state.vtxundo.tail⟩

def connectTransactions [TxHasher] (ctx : BlockContext) (block : CBlock) (pindex : ConnectIndex)
    (view : CCoinsView) (fJustCheck : Bool) : Except Failure Connected := do
  checkProofPeriod ctx.params pindex block
  checkBIP30 pindex view block
  let fScriptChecks :=
    Checkpoints.getTotalBlocksEstimate ctx.fCheckpointsEnabled ctx.params ≤ pindex.nHeight
  let state ← block.vtx.foldlM (connectTransaction ctx pindex.nHeight fScriptChecks)
    (ConnectState.start view)
  let pprev ← assertion pindex.pprev.head?
  require state.fChecksPass (.dos 100 REJECT_INVALID "block-validation-failed")
  finishConnect ctx pindex fJustCheck (expectedMint ctx pprev block state.nFees) state

def checkUnlessChecked [TxHasher] [BlockHasher] [MerkleHasher] (ctx : BlockContext)
    (block : CBlock) (fJustCheck fAlreadyChecked : Bool) : Check :=
  if fAlreadyChecked then pure () else checkBlock ctx block (!fJustCheck) (!fJustCheck)

def hashPrevBlock (pindex : ConnectIndex) : Uint256 :=
  match pindex.pprev with
  | [] => 0
  | pprev :: _ => pprev.phashBlock

def connectGenesis (pindex : ConnectIndex) (view : CCoinsView) : Except Failure Connected := do
  let hash ← assertion pindex.phashBlock
  pure ⟨view.setBestBlock hash, pindex.nMoneySupply, none, none⟩

def connectBlock [TxHasher] [BlockHasher] [MerkleHasher] (ctx : BlockContext) (block : CBlock)
    (pindex : ConnectIndex) (view : CCoinsView) (fJustCheck fAlreadyChecked : Bool) :
    Except Failure Connected := do
  checkUnlessChecked ctx block fJustCheck fAlreadyChecked
  require (hashPrevBlock pindex == view.hashBlock) .assertion
  if block.getHash = ctx.params.hashGenesisBlock then connectGenesis pindex view
  else connectTransactions ctx block pindex view fJustCheck

def updateBlockCoins [TxHasher] (nHeight : Nat) :
    List CTransaction → CCoinsView → Option (CCoinsView × List CTxUndo)
  | [], view => some (view, [])
  | tx :: rest, view => do
      let (next, txundo) ← view.updateCoins tx nHeight
      let (last, vtxundo) ← updateBlockCoins nHeight rest next
      some (last, txundo :: vtxundo)

theorem updateBlockCoins_cons [TxHasher] (nHeight : Nat) (tx : CTransaction)
    (rest : List CTransaction) (view last : CCoinsView) (vtxundo : List CTxUndo) :
    updateBlockCoins nHeight (tx :: rest) view = some (last, vtxundo) ↔
      ∃ next txundo undos, view.updateCoins tx nHeight = some (next, txundo) ∧
        updateBlockCoins nHeight rest next = some (last, undos) ∧ vtxundo = txundo :: undos := by
  constructor
  · intro updated
    simp only [updateBlockCoins, Option.bind_eq_bind, Option.bind_eq_some_iff] at updated
    obtain ⟨⟨next, txundo⟩, first, ⟨_, undos⟩, others, same⟩ := updated
    cases same
    exact ⟨next, txundo, undos, first, others, rfl⟩
  · rintro ⟨next, txundo, undos, first, others, rfl⟩
    simp only [updateBlockCoins, first, others, Option.bind_eq_bind, Option.bind_some]

structure TransactionConnected [TxHasher] (nHeight : Nat) (state next : ConnectState)
    (tx : CTransaction) (valueIn valueOut : Int) (txundo : CTxUndo) : Prop where
  have_inputs : state.view.haveInputs tx = true
  value_in : state.view.getValueIn tx = some valueIn
  value_out : tx.getValueOut = some valueOut
  updated : state.view.updateCoins tx nHeight = some (next.view, txundo)
  undo : next.vtxundo = state.vtxundo ++ [txundo]
  total_in : next.nValueIn = state.nValueIn + valueIn
  total_out : next.nValueOut = state.nValueOut + valueOut
  fees : next.nFees =
    state.nFees + if tx.isCoinBase || tx.isCoinStake then 0 else valueIn - valueOut

theorem txFees_ok (view : CCoinsView) (tx : CTransaction) (fees valueIn valueOut : Int)
    (value_in : view.getValueIn tx = some valueIn) (value_out : tx.getValueOut = some valueOut) :
    txFees view tx = .ok fees ↔ (if tx.isCoinStake then 0 else valueIn - valueOut) = fees := by
  unfold txFees
  split
  next => rw [Except.pure_ok]
  next =>
    simp only [Except.bind_ok, assertion_ok, Except.pure_ok, value_in, value_out,
      Option.some.injEq, exists_eq_left']

theorem connectInputs_ok (ctx : BlockContext) (nHeight : Nat) (fScriptChecks : Bool)
    (state next : ConnectState) (tx : CTransaction)
    (connected : connectInputs ctx nHeight fScriptChecks state tx = .ok next) :
    state.view.haveInputs tx = true ∧ next.view = state.view ∧ next.vtxundo = state.vtxundo ∧
      next.nValueOut = state.nValueOut ∧
      ∃ valueIn fees, state.view.getValueIn tx = some valueIn ∧
        txFees state.view tx = .ok fees ∧ next.nValueIn = state.nValueIn + valueIn ∧
        next.nFees = state.nFees + fees := by
  simp only [connectInputs, Except.bind_ok, exists_unit, require_ok, assertion_ok,
    Except.pure_ok] at connected
  obtain ⟨have_inputs, _, _, _, _, fees, taken, valueIn, value_in, _, _, rfl⟩ := connected
  exact ⟨have_inputs, rfl, rfl, rfl, valueIn, fees, value_in, taken, rfl, rfl⟩

theorem connectTransaction_ok [TxHasher] (ctx : BlockContext) (nHeight : Nat)
    (fScriptChecks : Bool) (state next : ConnectState) (tx : CTransaction)
    (connected : connectTransaction ctx nHeight fScriptChecks state tx = .ok next) :
    ∃ valueIn valueOut txundo,
      TransactionConnected nHeight state next tx valueIn valueOut txundo := by
  simp only [connectTransaction, Except.bind_ok, exists_unit, assertion_ok,
    Except.pure_ok] at connected
  obtain ⟨_, mid, spent, valueOut, value_out, ⟨view, txundo⟩, updated, rfl⟩ := connected
  unfold connectUnlessCoinBase at spent
  split at spent
  next coinbase =>
    cases spent
    refine ⟨0, valueOut, txundo, ⟨?_, ?_, value_out, updated, rfl, ?_, rfl, ?_⟩⟩
    · simp [CCoinsView.haveInputs, coinbase]
    · simp [CCoinsView.getValueIn, coinbase]
    · simp
    · simp [coinbase]
  next spending =>
    obtain ⟨have_inputs, sameView, sameUndo, sameOut, valueIn, fees, value_in, taken, totalIn,
      totalFees⟩ := connectInputs_ok ctx nHeight fScriptChecks _ mid tx spent
    have paid := (txFees_ok _ tx fees valueIn valueOut value_in value_out).mp taken
    refine ⟨valueIn, valueOut, txundo, ⟨have_inputs, value_in, value_out, ?_, ?_, totalIn, ?_, ?_⟩⟩
    · rw [← sameView]
      exact updated
    · exact congrArg (· ++ [txundo]) sameUndo
    · exact congrArg (· + valueOut) sameOut
    · simp [spending, totalFees, paid]

theorem connectTransactions_run [TxHasher] (ctx : BlockContext) (nHeight : Nat)
    (fScriptChecks : Bool) (vtx : List CTransaction) (state last : ConnectState)
    (connected : vtx.foldlM (connectTransaction ctx nHeight fScriptChecks) state = .ok last) :
    ∃ vtxundo, updateBlockCoins nHeight vtx state.view = some (last.view, vtxundo) ∧
      last.vtxundo = state.vtxundo ++ vtxundo := by
  induction vtx generalizing state with
  | nil =>
      simp only [List.foldlM_nil, Except.pure_ok] at connected
      subst connected
      exact ⟨[], rfl, by simp⟩
  | cons tx rest ih =>
      rw [List.foldlM_cons, Except.bind_ok] at connected
      obtain ⟨next, first, others⟩ := connected
      obtain ⟨_, _, txundo, step⟩ :=
        connectTransaction_ok ctx nHeight fScriptChecks state next tx first
      obtain ⟨vtxundo, run, undo⟩ := ih next others
      refine ⟨txundo :: vtxundo, ?_, ?_⟩
      · exact (updateBlockCoins_cons _ _ _ _ _ _).mpr ⟨_, _, _, step.updated, run, rfl⟩
      · simp [undo, step.undo]

theorem finishConnect_ok (ctx : BlockContext) (pindex : ConnectIndex) (fJustCheck : Bool)
    (nExpectedMint : Int) (state : ConnectState) (result : Connected)
    (finished : finishConnect ctx pindex fJustCheck nExpectedMint state = .ok result) :
    result.nMoneySupply = pindex.pprev.nMoneySupply + state.nValueOut - state.nValueIn ∧
      result.nExpectedMint = some nExpectedMint ∧
      (fJustCheck = true ∧ result.view = state.view ∧ result.blockundo = none ∨
        fJustCheck = false ∧ (∃ hash, pindex.phashBlock = some hash ∧
          result.view = state.view.setBestBlock hash) ∧
          result.blockundo = some state.vtxundo.tail) := by
  unfold finishConnect at finished
  cases fJustCheck with
  | true =>
      cases finished
      exact ⟨rfl, rfl, .inl ⟨rfl, rfl, rfl⟩⟩
  | false =>
      simp only [Bool.false_eq_true, ↓reduceIte, Except.bind_ok, exists_unit, assertion_ok,
        Except.pure_ok] at finished
      obtain ⟨_, hash, present, rfl⟩ := finished
      exact ⟨rfl, rfl, .inr ⟨rfl, ⟨hash, present, rfl⟩, rfl⟩⟩

structure BlockConnected [TxHasher] (ctx : BlockContext) (block : CBlock) (pindex : ConnectIndex)
    (view : CCoinsView) (fJustCheck : Bool) (pprev : CBlockIndex) (state : ConnectState)
    (result : Connected) : Prop where
  parent : pindex.pprev.head? = some pprev
  proofPeriod : checkProofPeriod ctx.params pindex block = .ok ()
  bip30 : checkBIP30 pindex view block = .ok ()
  run : block.vtx.foldlM
    (connectTransaction ctx pindex.nHeight (Checkpoints.getTotalBlocksEstimate
      ctx.fCheckpointsEnabled ctx.params ≤ pindex.nHeight : Bool)) (ConnectState.start view) =
      .ok state
  finished : finishConnect ctx pindex fJustCheck (expectedMint ctx pprev block state.nFees) state =
    .ok result

theorem connectBlock_ok [TxHasher] [BlockHasher] [MerkleHasher] (ctx : BlockContext)
    (block : CBlock) (pindex : ConnectIndex) (view : CCoinsView) (fJustCheck fAlreadyChecked : Bool)
    (result : Connected)
    (connected : connectBlock ctx block pindex view fJustCheck fAlreadyChecked = .ok result) :
    checkUnlessChecked ctx block fJustCheck fAlreadyChecked = .ok () ∧
      hashPrevBlock pindex = view.hashBlock ∧
      (block.getHash = ctx.params.hashGenesisBlock ∧ connectGenesis pindex view = .ok result ∨
        block.getHash ≠ ctx.params.hashGenesisBlock ∧
          ∃ pprev state, BlockConnected ctx block pindex view fJustCheck pprev state result) := by
  simp only [connectBlock, Except.bind_ok, exists_unit, require_ok, beq_iff_eq] at connected
  obtain ⟨checked, parent, connected⟩ := connected
  refine ⟨checked, parent, ?_⟩
  split at connected
  next genesis => exact .inl ⟨genesis, connected⟩
  next other =>
    simp only [connectTransactions, Except.bind_ok, exists_unit, require_ok,
      assertion_ok] at connected
    obtain ⟨period, bip30, state, run, pprev, found, _, finished⟩ := connected
    exact .inr ⟨other, pprev, state, ⟨found, period, bip30, run, finished⟩⟩

/-- The callers set fAlreadyChecked only for a block that has passed CheckBlock. -/
def CheckedBefore [TxHasher] [BlockHasher] [MerkleHasher] (block : CBlock)
    (fAlreadyChecked : Bool) : Prop :=
  fAlreadyChecked = true → ∃ ctx, checkBlock ctx block true true = .ok ()

theorem connectBlock_shape [TxHasher] [BlockHasher] [MerkleHasher] (ctx : BlockContext)
    (block : CBlock) (fJustCheck fAlreadyChecked : Bool)
    (checked : checkUnlessChecked ctx block fJustCheck fAlreadyChecked = .ok ())
    (promised : CheckedBefore block fAlreadyChecked) : ∃ params, BlockShape params block := by
  cases fAlreadyChecked with
  | true =>
      obtain ⟨other, before⟩ := promised rfl
      exact ⟨other.params, checkBlock_shape other block true true before⟩
  | false => exact ⟨ctx.params, checkBlock_shape ctx block (!fJustCheck) (!fJustCheck) checked⟩

end CryptoYen
