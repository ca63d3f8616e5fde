import CryptoYen.Consensus.Chainstate
import CryptoYen.Consensus.UndoData

set_option autoImplicit false

namespace CryptoYen

namespace CoinEdit

variable [TxHasher]

theorem disconnectTransaction_eq (nHeight : Nat) (tx : CTransaction) (txundo : CTxUndo)
    (data : Option CTxUndo) (view : CCoinsView)
    (given : tx.isCoinBase = false →
      data = some (txundo.map CTxInUndo.back) ∧ txundo.length = tx.vin.length) :
    disconnectTransaction nHeight tx data view =
      .ok (UndoLog.undoAll undo (txEdits nHeight tx txundo) view) := by
  cases coinbase : tx.isCoinBase with
  | true =>
      simp only [disconnectTransaction, coinbase, ↓reduceIte, txEdits, List.nil_append,
        UndoLog.undoAll, Bool.true_and]
      rfl
  | false =>
      obtain ⟨rfl, length⟩ := given coinbase
      simp only [disconnectTransaction, coinbase, List.length_map, length, ne_eq, not_true_eq_false,
        ↓reduceIte, Bool.false_eq_true, txEdits, UndoLog.undoAll_append, restoreInputs_eq]
      rfl

theorem disconnectTransactions_eq (nHeight : Nat) (txs : List (CTransaction × CTxUndo))
    (data : List (CTransaction × Option CTxUndo)) (view : CCoinsView)
    (given : List.Forall₂ (fun tx entry => entry.1 = tx.1 ∧ (tx.1.isCoinBase = false →
      entry.2 = some (tx.2.map CTxInUndo.back) ∧ tx.2.length = tx.1.vin.length)) txs data) :
    disconnectTransactions nHeight data view =
      .ok (UndoLog.undoAll undo (blockEdits nHeight txs) view) := by
  induction given with
  | nil => rfl
  | @cons tx entry _ _ here _ ih =>
      obtain ⟨tx, txundo⟩ := tx
      obtain ⟨same, undoData⟩ := here
      obtain ⟨entryTx, entryUndo⟩ := entry
      dsimp only at same undoData
      subst same
      simp only [disconnectTransactions, ih]
      rw [blockEdits_cons, UndoLog.undoAll_append]
      simp only [bind, Except.bind, disconnectTransaction_eq nHeight _ _ _ _ undoData]
      rfl

theorem disconnect_edits (nHeight : Nat) (coinbase : CTransaction) (rest : List CTransaction)
    (view last current : CCoinsView) (vtxundo : List CTxUndo)
    (isCoinBase : coinbase.isCoinBase = true)
    (updated : updateBlockCoins nHeight (coinbase :: rest) view = some (last, vtxundo)) :
    vtxundo.tail.length = rest.length ∧
      disconnectTransactions nHeight ((coinbase :: rest).zip
          (none :: (vtxundo.tail.map (List.map CTxInUndo.back)).map some)) current =
        .ok (UndoLog.undoAll undo (blockEdits nHeight ((coinbase :: rest).zip vtxundo)) current) := by
  have data := updateBlockCoins_data nHeight (coinbase :: rest) view last vtxundo updated
  obtain ⟨next, txundo, undos, _, others, rfl⟩ := (updateBlockCoins_cons _ _ _ _ _ _).mp updated
  have length := updateBlockCoins_length nHeight rest next last undos others
  rw [List.zip_cons_cons, List.forall_mem_cons] at data
  refine ⟨length, ?_⟩
  apply disconnectTransactions_eq
  rw [List.tail_cons, List.zip_cons_cons, List.zip_cons_cons]
  constructor
  · exact ⟨rfl, by simp [isCoinBase]⟩
  · rw [List.map_map, List.zip_map_right, List.forall₂_map_right_iff, List.forall₂_same]
    intro tx member
    refine ⟨rfl, fun spending => ⟨rfl, ?_⟩⟩
    have here := data.2 tx member
    rwa [spending, if_neg Bool.false_ne_true] at here

end CoinEdit

/-- DisconnectBlock with the undo file that ConnectBlock wrote succeeds with fClean and restores every
record exactly for the reversible blocks. -/
theorem disconnectBlock_undoes_iff [TxHasher] [BlockHasher] [MerkleHasher] [PubKeys] [HashWriter]
    (inverts : PubKeys.Inverts) (ctx : BlockContext)
    (network : ctx.params ∈ CChainParams.networks) (block : CBlock)
    (versions : ∀ tx ∈ block.vtx, Format.Int32 tx.nVersion) (pindex : ConnectIndex)
    (height : pindex.nHeight < 2 ^ 30) (view : CCoinsView) (sized : view.Sized)
    (fJustCheck fAlreadyChecked : Bool) (result : Connected)
    (connected : connectBlock ctx block pindex view fJustCheck fAlreadyChecked = .ok result)
    (promised : CheckedBefore block fAlreadyChecked) (file behind : List UInt8)
    (written : result.undoFile pindex = some file) :
    (∃ restored,
      disconnectBlock block pindex (some (file ++ behind)) result.view = .ok (restored, true) ∧
        ∀ txid, CCoins.equal (view.record txid) (restored.record txid) = true) ↔
      CCoinsView.Reversible pindex.nHeight [] block.vtx view := by
  obtain ⟨checked, _, outcome⟩ := connectBlock_ok _ _ _ _ _ _ _ connected
  obtain ⟨shapeParams, shape⟩ := connectBlock_shape ctx block fJustCheck fAlreadyChecked checked
    promised
  obtain ⟨coinbase, rest, vtx, isCoinBase, _⟩ := shape.shape
  rcases outcome with genesis | other
  · obtain ⟨_, genesis⟩ := genesis
    simp only [connectGenesis, Except.bind_ok, assertion_ok, Except.pure_ok] at genesis
    obtain ⟨_, _, rfl⟩ := genesis
    cases written
  · obtain ⟨_, pprev, state, blockConnected⟩ := other
    obtain ⟨_, _, stored⟩ := finishConnect_ok _ _ _ _ _ _ blockConnected.finished
    rcases stored with justChecked | stored
    · rw [Connected.undoFile, justChecked.2.2] at written
      cases written
    obtain ⟨_, ⟨hash, present, resultView⟩, blockundo⟩ := stored
    obtain ⟨vtxundo, updated, collected⟩ := connectTransactions_run _ _ _ _ _ _ blockConnected.run
    have same : state.vtxundo = vtxundo := by simpa [ConnectState.start] using collected
    have start : (ConnectState.start view).view = view := rfl
    rw [start] at updated
    have amounts := connectTransactions_amounts _ _ _ _ _ _ state.view vtxundo blockConnected.run
      updated
    obtain ⟨typed, fits⟩ := undo_typed inverts ctx.params shapeParams network block shape
      pindex.nHeight height versions view state.view sized vtxundo updated amounts
    obtain ⟨⟨done, ran⟩, reversible⟩ := CoinEdit.blockEdits_run pindex.nHeight block.vtx ⟨view, []⟩
      state.view vtxundo (shape.writable pindex.nHeight height versions).1 updated
    have read : CBlockUndo.readFromDisk (file ++ behind) pprev.phashBlock =
        some (vtxundo.tail.map (List.map CTxInUndo.back)) := by
      have parent : hashPrevBlock pindex = pprev.phashBlock := by
        obtain ⟨ancestors, chain⟩ := List.head?_eq_some_iff.mp blockConnected.parent
        rw [hashPrevBlock, chain]
      rw [Connected.undoFile, blockundo, same, Option.map_some, Option.some.injEq, parent] at written
      rw [← written]
      exact CBlockUndo.readFromDisk_writeToDisk pprev.phashBlock vtxundo.tail typed fits behind
    rw [vtx] at updated
    obtain ⟨length, undoes⟩ := CoinEdit.disconnect_edits pindex.nHeight coinbase rest view state.view
      (state.view.setBestBlock hash) vtxundo isCoinBase updated
    rw [← vtx] at undoes
    generalize found : UndoLog.undoAll CoinEdit.undo
      (CoinEdit.blockEdits pindex.nHeight (block.vtx.zip vtxundo))
      (state.view.setBestBlock hash) = undone at undoes
    have disconnected : disconnectBlock block pindex (some (file ++ behind)) result.view =
        .ok (undone.1.setBestBlock pprev.phashBlock, undone.2) := by
      rw [resultView]
      simp only [disconnectBlock, Except.bind_ok, exists_unit, require_ok, assertion_ok,
        beq_iff_eq]
      refine ⟨present, pprev, blockConnected.parent, ?_⟩
      simp only [read, Except.bind_ok, exists_unit, require_ok, beq_iff_eq, Except.pure_ok]
      exact ⟨by rw [List.length_map, vtx, length, List.length_cons], undone, undoes, rfl⟩
    have account := CoinEdit.accountable.restores_iff
      (CoinEdit.blockEdits pindex.nHeight (block.vtx.zip vtxundo)) ⟨view, []⟩ ⟨state.view, done⟩
      (state.view.setBestBlock hash) sized ran
      (fun txid => CCoins.restored_of_equal _ _ _ (CCoins.equal_refl _))
    rw [← reversible, ← account, disconnected, found, CoinEdit.agree_start]
    constructor
    · intro restores
      obtain ⟨restored, eq, records⟩ := restores
      have parts := Prod.mk.inj (Except.ok.inj eq)
      rw [← parts.1] at records
      exact ⟨records, parts.2⟩
    · intro restores
      obtain ⟨agree, clean⟩ := restores
      exact ⟨undone.1.setBestBlock pprev.phashBlock, by rw [clean], agree⟩

/-- What the messages of the network and the callers of ConnectBlock promise of a tip. -/
structure TipBlock.Promised [TxHasher] [BlockHasher] [MerkleHasher] (tip : TipBlock) : Prop where
  checked : CheckedBefore tip.block tip.fAlreadyChecked
  versions : ∀ tx ∈ tip.block.vtx, Format.Int32 tx.nVersion

theorem ChainState.run_sized [TxHasher] [BlockHasher] [MerkleHasher] (params : CChainParams)
    (tips : List TipBlock) (final : ChainState)
    (along : Machine.Along (fun state tip => state.nextHeight < 2 ^ 30 ∧ tip.Promised)
      (ChainState.step params) (ChainState.genesis params) tips)
    (ran : Machine.run (ChainState.step params) (ChainState.genesis params) tips = some final) :
    final.view.Sized := by
  have start : (ChainState.genesis params).Grounded params ∧
      (ChainState.genesis params).view.Sized :=
    ⟨ChainState.genesis_grounded params, fun _ => CCoins.empty_sized⟩
  refine (Machine.run_invariant (ChainState.step params) _
    (fun state => state.Grounded params ∧ state.view.Sized) ?_ _ final tips start along ran).2
  intro state tip next inv allowed stepped
  obtain ⟨grounded, sized⟩ := inv
  obtain ⟨height, promised⟩ := allowed
  refine ⟨state.step_grounded params tip next grounded stepped, ?_⟩
  obtain ⟨_, last, _, connected, blockConnected, rfl⟩ :=
    state.step_connected params tip next grounded stepped
  obtain ⟨checked, _, _⟩ := connectBlock_ok _ _ _ _ _ _ _ connected
  obtain ⟨_, shape⟩ := connectBlock_shape _ _ _ _ checked promised.checked
  obtain ⟨_, _, written⟩ := finishConnect_ok _ _ _ _ _ _ blockConnected.finished
  obtain ⟨vtxundo, updated, _⟩ := connectTransactions_run _ _ _ _ _ _ blockConnected.run
  obtain ⟨⟨_, ran⟩, _⟩ := CoinEdit.blockEdits_run _ _ ⟨state.view, []⟩ _ vtxundo
    (shape.writable _ height promised.versions).1 updated
  have lastSized := (CoinEdit.spends_sized _ _ _ sized ran).1
  rcases written with justChecked | stored
  · cases justChecked.1
  · obtain ⟨_, ⟨hash, _, resultView⟩, _⟩ := stored
    rw [resultView]
    exact lastSized

namespace SpentCoinStake

def record (fCoinStake : Bool) (nVersion : Int) : CCoins where
  fCoinBase := false
  fCoinStake := fCoinStake
  vout := [CTxOut.empty, ⟨COIN, [OP_1]⟩]
  nHeight := 1
  nVersion := nVersion

def view (fCoinStake : Bool) (nVersion : Int) : CCoinsView where
  coins := fun txid =>
    if txid = 5 then some (CleanCoins.of (record fCoinStake nVersion)) else none
  hashBlock := 9

def chain : CChain := [⟨9, 100, 2, 1613150300, 0x1e0fffff, 0⟩]

def context : BlockContext :=
  { downloadingNode CChainParams.mainParams with
    chainActive := chain
    mapBlockIndex := fun hash => if hash = 9 then some chain else none }

def coinbase : CTransaction :=
  ⟨1, [⟨COutPoint.null, [OP_1, OP_1], 0xffffffff⟩], [⟨1000, [OP_1]⟩], 0⟩

def spending : CTransaction :=
  ⟨1, [⟨⟨5, 0⟩, [], 0xffffffff⟩, ⟨⟨5, 1⟩, [], 0xffffffff⟩], [⟨2000, [OP_1]⟩], 0⟩

def block : CBlock where
  nVersion := 2
  hashPrevBlock := 9
  hashMerkleRoot := 1000
  nTime := 1613150400
  nBits := 0x1e0fffff
  nNonce := 0
  vtx := [coinbase, spending]
  vchBlockSig := []

def pindex : ConnectIndex := ⟨some 1613150400, 101, 0, chain⟩

@[reducible] def sumWriter : HashWriter :=
  ⟨fun bytes => BitVec.ofNat 256 (bytes.map UInt8.toNat).sum⟩

def connected (fCoinStake : Bool) (nVersion : Int) : Except Failure Connected :=
  @connectBlock outputHasher timeHasher leftHasher context block pindex
    (view fCoinStake nVersion) false false

def undoFile (result : Connected) : Option (List UInt8) :=
  @Connected.undoFile noUncompressedKeys sumWriter result pindex

def disconnected (file : Option (List UInt8)) (view : CCoinsView) :
    Except Failure (CCoinsView × Bool) :=
  @disconnectBlock outputHasher noUncompressedKeys sumWriter block pindex file view

theorem view_sized (fCoinStake : Bool) (nVersion : Int) (version : Format.Int32 nVersion) :
    (view fCoinStake nVersion).Sized := by
  intro txid
  by_cases known : txid = 5
  · subst known
    have outputs : ∀ txout ∈ (record fCoinStake nVersion).cleanup.vout,
        txout = CTxOut.empty ∨ txout = ⟨COIN, [OP_1]⟩ := by
      intro txout member
      simpa [record] using CCoins.mem_cleanup (record fCoinStake nVersion) txout member
    refine ⟨?_, (by decide : 1 < 2 ^ 30), version, ?_⟩
    · intro txout member null
      rcases outputs txout member with rfl | rfl <;> cases null
    · intro txout member
      rcases outputs txout member with rfl | rfl <;> decide
  · have unknown : (view fCoinStake nVersion).coins txid = none := if_neg known
    rw [CCoinsView.record, unknown]
    exact CCoins.empty_sized

theorem ordinary_reversible :
    @CCoinsView.Reversible outputHasher pindex.nHeight [] block.vtx (view false 1) := by
  have transactions : block.vtx = [coinbase, spending] := rfl
  rw [transactions]
  unfold CCoinsView.Reversible
  refine ⟨(fun spending => by cases spending), ?_, ?_⟩
  · intro spent undo taken
    cases taken
    rfl
  · intro afterCoinBase undo updated
    cases updated
    unfold CCoinsView.Reversible
    refine ⟨fun _ => ⟨?_, ?_⟩, ?_, fun _ _ _ => trivial⟩
    · intro next undo taken last
      cases taken
      cases last
    · intro mid undo taken
      cases taken
      refine ⟨?_, fun _ _ _ => trivial⟩
      intro next undo taken _
      exact ⟨rfl, by decide, .inl (by decide)⟩
    · intro spent undo taken
      cases taken
      rfl

-- The version -1 is one byte in the undo file and comes back as 127.
example : okAnd (connected false (-1)) (fun result =>
    okAnd (disconnected (undoFile result) result.view) fun undone =>
      undone.2 && (undone.1.record 5).nVersion == 127) = true := by
  decide +kernel

end SpentCoinStake

theorem disconnectBlock_restores_ordinary :
    ∃ result file restored, SpentCoinStake.connected false 1 = .ok result ∧
      SpentCoinStake.undoFile result = some file ∧
      SpentCoinStake.disconnected (some (file ++ [0, 0])) result.view = .ok (restored, true) ∧
      CCoins.equal ((SpentCoinStake.view false 1).record 5) (restored.record 5) = true := by
  have connects : okAnd (SpentCoinStake.connected false 1) (fun result =>
      result.blockundo.isSome) = true := by
    decide +kernel
  obtain ⟨result, connected, produced⟩ := (okAnd_iff _ _).mp connects
  obtain ⟨vtxundo, blockundo⟩ := Option.isSome_iff_exists.mp produced
  obtain ⟨file, written⟩ : ∃ file, SpentCoinStake.undoFile result = some file :=
    ⟨_, congrArg (Option.map _) blockundo⟩
  obtain ⟨restored, disconnected, records⟩ :=
    (@disconnectBlock_undoes_iff outputHasher timeHasher leftHasher noUncompressedKeys
      SpentCoinStake.sumWriter (fun _ _ valid => by cases valid) SpentCoinStake.context
      List.mem_cons_self SpentCoinStake.block (by decide) SpentCoinStake.pindex (by decide)
      (SpentCoinStake.view false 1) (SpentCoinStake.view_sized false 1 (by decide)) false false
      result connected (fun checked => by cases checked) file [0, 0] written).mpr
      SpentCoinStake.ordinary_reversible
  exact ⟨result, file, restored, connected, written, disconnected, records 5⟩

/-- Spending the last outputs of a coinstake and disconnecting the block again turns its record into
that of an ordinary transaction, reported as clean. -/
theorem disconnectBlock_loses_coinstake :
    ∃ result undone, SpentCoinStake.connected true 1 = .ok result ∧
      SpentCoinStake.disconnected (SpentCoinStake.undoFile result) result.view = .ok undone ∧
      undone.2 = true ∧
      ¬ ∀ txid, CCoins.equal ((SpentCoinStake.view true 1).record txid) (undone.1.record txid) =
        true := by
  have loses : okAnd (SpentCoinStake.connected true 1) (fun result =>
      okAnd (SpentCoinStake.disconnected (SpentCoinStake.undoFile result) result.view)
        fun undone =>
          undone.2 && !CCoins.equal ((SpentCoinStake.view true 1).record 5)
            (undone.1.record 5)) = true := by
    decide +kernel
  obtain ⟨result, connected, disconnects⟩ := (okAnd_iff _ _).mp loses
  obtain ⟨undone, disconnected, fields⟩ := (okAnd_iff _ _).mp disconnects
  simp only [Bool.and_eq_true, Bool.not_eq_true'] at fields
  refine ⟨result, undone, connected, disconnected, fields.1, ?_⟩
  intro same
  rw [same 5] at fields
  cases fields.2

end CryptoYen
