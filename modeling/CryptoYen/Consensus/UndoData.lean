import Mathlib.Algebra.Order.Group.Nat
import CryptoYen.Coins.Edits
import CryptoYen.Consensus.Disconnect

set_option autoImplicit false

namespace CryptoYen

theorem checkInputsValue_amounts (ctx : NodeContext) (tx : CTransaction) (view : CCoinsView)
    (passed : checkInputsValue ctx tx view = .ok ()) :
    ∀ txin ∈ tx.vin, ∀ txout, view.coinAt txin.prevout = some txout →
      moneyRange ctx.params txout.nValue = true := by
  rw [checkInputsValue, Except.bind_ok] at passed
  obtain ⟨_, _, passed⟩ := passed
  split at passed
  next => cases passed
  next pindexPrev _ =>
    obtain ⟨total, summed, _⟩ := (Except.bind_ok _ _ _).mp passed
    generalize (0 : Int) = start at summed
    generalize tx.vin = vin at summed
    induction vin generalizing start with
    | nil => simp
    | cons txin rest ih =>
        rw [List.foldlM_cons, Except.bind_ok] at summed
        obtain ⟨mid, here, later⟩ := summed
        rw [List.forall_mem_cons]
        refine ⟨?_, ih mid later⟩
        intro txout found
        simp only [checkInput, Except.bind_ok, exists_unit, assertion_ok, require_ok, found,
          Option.some.injEq, Bool.and_eq_true] at here
        obtain ⟨_, rfl, _, amount, _⟩ := here
        exact amount.1

theorem checkBlockInputs_amounts (ctx : BlockContext) (view : CCoinsView) (fScriptChecks pass : Bool)
    (tx : CTransaction) (spending : tx.isCoinBase = false)
    (passed : checkBlockInputs ctx view fScriptChecks tx = .ok pass) :
    ∀ txin ∈ tx.vin, ∀ txout, view.coinAt txin.prevout = some txout →
      moneyRange ctx.params txout.nValue = true := by
  apply checkInputsValue_amounts ctx.toNodeContext tx view
  rw [checkBlockInputs] at passed
  split at passed
  next =>
    obtain ⟨_, inputs, _⟩ := (Except.bind_ok _ _ _).mp passed
    rw [checkInputs, spending] at inputs
    obtain ⟨_, value, _⟩ := (Except.bind_ok _ _ _).mp inputs
    exact value
  next =>
    obtain ⟨_, value, _⟩ := (Except.bind_ok _ _ _).mp passed
    exact value

namespace CCoinsView

theorem spendInputs_coins (vin : List CTxIn) (view next : CCoinsView) (txundo : CTxUndo)
    (spent : spendInputs vin view = some (next, txundo)) :
    ∀ undo ∈ txundo, ∃ txin ∈ vin, view.coinAt txin.prevout = some undo.txout := by
  induction vin generalizing view txundo with
  | nil =>
      cases spent
      simp
  | cons txin rest ih =>
      obtain ⟨mid, undo, undos, taken, others, rfl⟩ := (spendInputs_cons _ _ _ _ _).mp spent
      rw [List.forall_mem_cons]
      constructor
      · obtain ⟨coins, record, _⟩ := view.spendCoin_some txin.prevout mid undo taken
        exact ⟨txin, List.mem_cons_self, (CCoins.spend_some _ _ _ _ record).1⟩
      · intro later member
        obtain ⟨other, listed, found⟩ := ih mid undos others later member
        rw [view.spendCoin_coinAt _ mid undo taken] at found
        split at found
        next => cases found
        next => exact ⟨other, List.mem_cons_of_mem _ listed, found⟩

end CCoinsView

theorem connectTransaction_amounts [TxHasher] (ctx : BlockContext) (nHeight : Nat) (fScriptChecks : Bool)
    (state next : ConnectState) (tx : CTransaction) (view : CCoinsView) (txundo : CTxUndo)
    (connected : connectTransaction ctx nHeight fScriptChecks state tx = .ok next)
    (updated : state.view.updateCoins tx nHeight = some (view, txundo)) :
    ∀ undo ∈ txundo, moneyRange ctx.params undo.txout.nValue = true := by
  obtain ⟨spent, taken, _⟩ := state.view.updateCoins_some tx nHeight view txundo updated
  cases coinbase : tx.isCoinBase with
  | true =>
      simp only [CCoinsView.spendTransaction, coinbase, if_true, Option.some.injEq,
        Prod.mk.injEq] at taken
      rw [← taken.2]
      exact fun _ member => absurd member List.not_mem_nil
  | false =>
      simp only [CCoinsView.spendTransaction, coinbase, Bool.false_eq_true, if_false] at taken
      simp only [connectTransaction, Except.bind_ok, exists_unit, connectUnlessCoinBase, coinbase,
        Bool.false_eq_true, if_false, connectInputs] at connected
      obtain ⟨_, _, ⟨_, _, _, _, _, _, _, _, _, pass, passed, _⟩, _⟩ := connected
      have amounts := checkBlockInputs_amounts ctx state.view fScriptChecks pass tx coinbase passed
      intro undo member
      obtain ⟨txin, listed, found⟩ :=
        CCoinsView.spendInputs_coins tx.vin state.view spent txundo taken undo member
      exact amounts txin listed undo.txout found

theorem connectTransactions_amounts [TxHasher] (ctx : BlockContext) (nHeight : Nat) (fScriptChecks : Bool)
    (vtx : List CTransaction) (state last : ConnectState) (view : CCoinsView)
    (vtxundo : List CTxUndo)
    (connected : vtx.foldlM (connectTransaction ctx nHeight fScriptChecks) state = .ok last)
    (updated : updateBlockCoins nHeight vtx state.view = some (view, vtxundo)) :
    ∀ txundo ∈ vtxundo, ∀ undo ∈ txundo, moneyRange ctx.params undo.txout.nValue = true := by
  induction vtx generalizing state vtxundo with
  | nil =>
      cases updated
      simp
  | cons tx rest ih =>
      rw [List.foldlM_cons, Except.bind_ok] at connected
      obtain ⟨next, first, others⟩ := connected
      obtain ⟨_, _, _, step⟩ :=
        connectTransaction_ok ctx nHeight fScriptChecks state next tx first
      obtain ⟨_, _, undos, taken, later, rfl⟩ := (updateBlockCoins_cons _ _ _ _ _ _).mp updated
      rw [step.updated] at taken
      cases taken
      rw [List.forall_mem_cons]
      exact ⟨connectTransaction_amounts ctx nHeight fScriptChecks state next tx _ _ first
        step.updated, ih next undos others later⟩

namespace CoinEdit

variable [TxHasher]

def blockEdits (nHeight : Nat) (txs : List (CTransaction × CTxUndo)) : List CoinEdit :=
  txs.flatMap fun tx => txEdits nHeight tx.1 tx.2

omit [TxHasher] in
theorem blockEdits_cons (nHeight : Nat) (tx : CTransaction) (txundo : CTxUndo)
    (txs : List (CTransaction × CTxUndo)) :
    blockEdits nHeight ((tx, txundo) :: txs) =
      txEdits nHeight tx txundo ++ blockEdits nHeight txs := rfl

theorem blockEdits_run (nHeight : Nat) (vtx : List CTransaction) (coins : BlockCoins)
    (last : CCoinsView) (vtxundo : List CTxUndo)
    (writable : ∀ tx ∈ vtx, CCoins.Writable tx nHeight)
    (updated : updateBlockCoins nHeight vtx coins.view = some (last, vtxundo)) :
    (∃ written, Machine.run step coins (blockEdits nHeight (vtx.zip vtxundo)) =
        some ⟨last, written⟩) ∧
      (Machine.Along Good step coins (blockEdits nHeight (vtx.zip vtxundo)) ↔
        CCoinsView.Reversible nHeight coins.written vtx coins.view) := by
  induction vtx generalizing coins vtxundo with
  | nil =>
      cases updated
      exact ⟨⟨coins.written, rfl⟩, Iff.rfl⟩
  | cons tx rest ih =>
      obtain ⟨next, txundo, undos, first, others, rfl⟩ :=
        (updateBlockCoins_cons _ _ _ _ _ _).mp updated
      obtain ⟨here, later⟩ := List.forall_mem_cons.mp writable
      obtain ⟨firstRan, firstAlong⟩ := txEdits_run nHeight tx coins next txundo here first
      obtain ⟨⟨written, ran⟩, along⟩ := ih ⟨next, tx.getHash :: coins.written⟩ undos later others
      rw [List.zip_cons_cons, blockEdits_cons]
      constructor
      · refine ⟨written, ?_⟩
        rw [Machine.run_append, firstRan, Option.bind_some, ran]
      · simp [Machine.along_append, firstRan, firstAlong, along, CCoinsView.Reversible, first,
          and_assoc]

theorem updateBlockCoins_length (nHeight : Nat) (vtx : List CTransaction)
    (view last : CCoinsView) (vtxundo : List CTxUndo)
    (updated : updateBlockCoins nHeight vtx view = some (last, vtxundo)) :
    vtxundo.length = vtx.length := by
  induction vtx generalizing view vtxundo with
  | nil =>
      cases updated
      rfl
  | cons tx rest ih =>
      obtain ⟨next, _, undos, _, others, rfl⟩ := (updateBlockCoins_cons _ _ _ _ _ _).mp updated
      rw [List.length_cons, List.length_cons, ih next undos others]

theorem updateBlockCoins_data (nHeight : Nat) (vtx : List CTransaction) (view last : CCoinsView)
    (vtxundo : List CTxUndo) (updated : updateBlockCoins nHeight vtx view = some (last, vtxundo)) :
    ∀ tx ∈ vtx.zip vtxundo,
      if tx.1.isCoinBase then tx.2 = [] else tx.2.length = tx.1.vin.length := by
  induction vtx generalizing view vtxundo with
  | nil => simp
  | cons tx rest ih =>
      obtain ⟨next, txundo, undos, first, others, rfl⟩ :=
        (updateBlockCoins_cons _ _ _ _ _ _).mp updated
      rw [List.zip_cons_cons, List.forall_mem_cons]
      refine ⟨?_, ih next undos others⟩
      obtain ⟨spent, taken, _⟩ := view.updateCoins_some tx nHeight next txundo first
      rw [CCoinsView.spendTransaction] at taken
      split at taken
      next coinbase =>
        cases taken
        rw [if_pos coinbase]
      next spending =>
        rw [if_neg spending]
        exact (spendEdits_run tx.vin ⟨view, []⟩ spent txundo taken).1

theorem spends_sized (edits : List CoinEdit) (coins last : BlockCoins) (sized : coins.view.Sized)
    (ran : Machine.run step coins edits = some last) :
    last.view.Sized ∧ ∀ out undo, CoinEdit.spend out undo ∈ edits → undo.Sized := by
  induction edits generalizing coins with
  | nil =>
      cases ran
      exact ⟨sized, by simp⟩
  | cons edit rest ih =>
      obtain ⟨next, stepped, later⟩ := Option.bind_eq_some_iff.mp ran
      obtain ⟨kept, others⟩ := ih next (sized_step coins edit next sized stepped) later
      refine ⟨kept, fun out undo member => ?_⟩
      rcases List.mem_cons.mp member with rfl | member
      · obtain ⟨spent, _⟩ := step_spend coins next out undo stepped
        exact (CCoins.spend_sized _ out _ undo (sized out.hash)
          (coins.view.spendCoin_record next.view out undo spent).1).2
      · exact others out undo member

omit [TxHasher] in
theorem mem_blockEdits (nHeight : Nat) (txs : List (CTransaction × CTxUndo))
    (data : ∀ tx ∈ txs, if tx.1.isCoinBase then tx.2 = [] else tx.2.length = tx.1.vin.length)
    (txundo : CTxUndo) (member : txundo ∈ txs.map Prod.snd) (undo : CTxInUndo)
    (present : undo ∈ txundo) : ∃ out, CoinEdit.spend out undo ∈ blockEdits nHeight txs := by
  obtain ⟨⟨tx, txundo⟩, listed, rfl⟩ := List.mem_map.mp member
  have here := data _ listed
  cases coinbase : tx.isCoinBase with
  | true =>
      rw [coinbase, if_pos rfl] at here
      rw [here] at present
      cases present
  | false =>
      rw [coinbase, if_neg Bool.false_ne_true] at here
      obtain ⟨nPos, found⟩ := List.mem_iff_getElem?.mp present
      obtain ⟨inside, _⟩ := List.getElem?_eq_some_iff.mp found
      obtain ⟨txin, input⟩ : ∃ txin, tx.vin[nPos]? = some txin :=
        ⟨_, List.getElem?_eq_getElem (here ▸ inside)⟩
      have paired : (txin, undo) ∈ tx.vin.zip txundo :=
        List.mem_of_getElem? (List.getElem?_zip_eq_some.mpr ⟨input, found⟩)
      refine ⟨txin.prevout, List.mem_flatMap.mpr ⟨_, listed, ?_⟩⟩
      rw [txEdits, coinbase]
      exact List.mem_append_left _ (List.mem_map.mpr ⟨_, paired, rfl⟩)

end CoinEdit

theorem CTransaction.size_bounds (tx : CTransaction) :
    tx.vin.length ≤ tx.getSerializeSize ∧
      ∀ txout ∈ tx.vout, txout.scriptPubKey.length ≤ tx.getSerializeSize := by
  have inputs : tx.vin.length ≤ (tx.vin.map CTxIn.getSerializeSize).sum := by
    have each := List.length_le_sum_of_one_le (tx.vin.map CTxIn.getSerializeSize) fun size member => by
      obtain ⟨txin, _, rfl⟩ := List.mem_map.mp member
      rw [CTxIn.getSerializeSize]
      omega
    rwa [List.length_map] at each
  refine ⟨by rw [getSerializeSize]; omega, fun txout member => ?_⟩
  have output := List.single_le_sum (fun _ _ => Nat.zero_le _) _
    (List.mem_map_of_mem (f := CTxOut.getSerializeSize) member)
  rw [CTxOut.getSerializeSize, CScript.getSerializeSize] at output
  rw [getSerializeSize]
  omega

theorem BlockShape.writable {params : CChainParams} {block : CBlock}
    (shape : BlockShape params block) (nHeight : Nat) (height : nHeight < 2 ^ 30)
    (versions : ∀ tx ∈ block.vtx, Format.Int32 tx.nVersion) :
    (∀ tx ∈ block.vtx, CCoins.Writable tx nHeight) ∧
      ∀ tx ∈ block.vtx, tx.vin.length ≤ MAX_SIZE := by
  have bound (tx : CTransaction) (member : tx ∈ block.vtx) : tx.getSerializeSize ≤ MAX_SIZE :=
    ((checkTransaction_ok params tx).mp (shape.transactions tx member)).size.trans (by decide)
  have values (tx : CTransaction) (member : tx ∈ block.vtx) :=
    ((checkTransaction_ok params tx).mp (shape.transactions tx member)).outputs.nonNegative
  refine ⟨fun tx member => ⟨fun txout listed => ⟨values tx member txout listed, ?_⟩,
    versions tx member, height⟩, fun tx member => ?_⟩
  · exact (tx.size_bounds.2 txout listed).trans (bound tx member)
  · exact tx.size_bounds.1.trans (bound tx member)

theorem undo_typed [TxHasher] [PubKeys] (inverts : PubKeys.Inverts) (params shapeParams : CChainParams)
    (network : params ∈ CChainParams.networks) (block : CBlock)
    (shape : BlockShape shapeParams block) (nHeight : Nat) (height : nHeight < 2 ^ 30)
    (versions : ∀ tx ∈ block.vtx, Format.Int32 tx.nVersion) (view last : CCoinsView)
    (sized : view.Sized) (vtxundo : List CTxUndo)
    (updated : updateBlockCoins nHeight block.vtx view = some (last, vtxundo))
    (amounts : ∀ txundo ∈ vtxundo, ∀ undo ∈ txundo, moneyRange params undo.txout.nValue = true) :
    CBlockUndo.format.Typed vtxundo.tail ∧ CBlockUndo.format.Fits vtxundo.tail := by
  obtain ⟨writable, inputs⟩ := shape.writable nHeight height versions
  obtain ⟨⟨_, ran⟩, _⟩ :=
    CoinEdit.blockEdits_run nHeight block.vtx ⟨view, []⟩ last vtxundo writable updated
  have spends := (CoinEdit.spends_sized _ _ _ sized ran).2
  have data := CoinEdit.updateBlockCoins_data nHeight block.vtx view last vtxundo updated
  have length := CoinEdit.updateBlockCoins_length nHeight block.vtx view last vtxundo updated
  have snds : (block.vtx.zip vtxundo).map Prod.snd = vtxundo :=
    List.map_snd_zip (by omega)
  have each : ∀ txundo ∈ vtxundo.tail, ∀ undo ∈ txundo, CBlockUndo.txInUndo.Typed undo := by
    intro txundo member undo present
    have listed := List.mem_of_mem_tail member
    obtain ⟨out, edit⟩ := CoinEdit.mem_blockEdits nHeight (block.vtx.zip vtxundo) data txundo
      (by rwa [snds]) undo present
    exact ⟨inverts, spends out undo edit,
      CTxInUndo.amount_bounds network (amounts txundo listed undo present)⟩
  have short : ∀ txundo ∈ vtxundo.tail, txundo.length ≤ MAX_SIZE := by
    intro txundo member
    have listed := List.mem_of_mem_tail member
    rw [← snds] at listed
    obtain ⟨⟨tx, txundo⟩, paired, rfl⟩ := List.mem_map.mp listed
    have size := inputs tx (List.of_mem_zip paired).1
    have here := data _ paired
    split at here
    · rw [here]
      exact Nat.zero_le _
    · exact here.le.trans size
  have few : vtxundo.tail.length ≤ MAX_SIZE := by
    have blockLength := shape.length.trans (by decide : MAX_BLOCK_SIZE_CURRENT ≤ MAX_SIZE)
    rw [List.length_tail]
    omega
  have wide : MAX_SIZE < 256 ^ 8 := by decide
  exact ⟨⟨by omega, fun txundo member =>
    ⟨(short txundo member).trans_lt wide, each txundo member⟩⟩,
    few, fun txundo member => ⟨short txundo member, fun _ _ => trivial⟩⟩

end CryptoYen
