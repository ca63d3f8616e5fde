import CryptoYen.Mining.Filling

set_option autoImplicit false

namespace CryptoYen

section agreement

theorem foldlM_agree {m : Type → Type} [Monad m] {α β : Type} (f g : β → α → m β) (l : List α)
    (same : ∀ b, ∀ a ∈ l, f b a = g b a) (b : β) : l.foldlM f b = l.foldlM g b := by
  induction l generalizing b with
  | nil => rfl
  | cons a l ih =>
      rw [List.foldlM_cons, List.foldlM_cons, same b a List.mem_cons_self]
      exact congrArg _ (funext fun next => ih (fun b a mem => same b a (List.mem_cons_of_mem _ mem)) next)

variable (view other : CCoinsView) (tx : CTransaction)
  (same : ∀ txin ∈ tx.vin, other.record txin.prevout.hash = view.record txin.prevout.hash)

include same

theorem haveInputs_agree : other.haveInputs tx = view.haveInputs tx := by
  rw [Bool.eq_iff_iff]
  simp only [CCoinsView.haveInputs, Bool.or_eq_true, List.all_eq_true, CCoinsView.isAvailable]
  refine or_congr Iff.rfl (forall₂_congr fun txin mem => ?_)
  rw [same txin mem]

theorem getValueIn_agree : other.getValueIn tx = view.getValueIn tx := by
  rw [CCoinsView.getValueIn, CCoinsView.getValueIn, foldlM_agree other.addValueIn view.addValueIn]
  intro total txin mem
  simp only [CCoinsView.addValueIn, CCoinsView.getOutputFor, CCoinsView.coinAt, same txin mem]

theorem getP2SHSigOpCount_agree : getP2SHSigOpCount tx other = getP2SHSigOpCount tx view := by
  have counted (vin : List CTxIn) (inside : ∀ txin ∈ vin, txin ∈ tx.vin) :
      vin.mapM (inputSigOps other) = vin.mapM (inputSigOps view) := by
    induction vin with
    | nil => rfl
    | cons txin vin ih =>
        obtain ⟨here, later⟩ := List.forall_mem_cons.mp inside
        have first : inputSigOps other txin = inputSigOps view txin := by
          simp only [inputSigOps, CCoinsView.getOutputFor, CCoinsView.coinAt, same txin here]
        rw [List.mapM_cons, List.mapM_cons, first, ih later]
  rw [getP2SHSigOpCount, getP2SHSigOpCount, counted tx.vin fun txin mem => mem]

theorem checkInputsValue_agree (ctx : NodeContext) (block : other.hashBlock = view.hashBlock) :
    checkInputsValue ctx tx other = checkInputsValue ctx tx view := by
  have folded (height : Int) :
      tx.vin.foldlM (checkInput ctx other height) 0 = tx.vin.foldlM (checkInput ctx view height) 0 :=
    foldlM_agree _ _ _ (fun total txin mem => by
      simp only [checkInput, CCoinsView.coinAt, same txin mem]) _
  rw [checkInputsValue, checkInputsValue, haveInputs_agree view other tx same, block]
  simp only [folded]

end agreement

theorem checkScript_ok (ctx : NodeContext) (inputs : CCoinsView) (flags : BitVec 32) (tx : CTransaction)
    (input : CTxIn × Nat) :
    checkScript ctx inputs flags tx input = .ok () ↔
      scriptCheck ctx inputs flags tx input.2 input.1 = .ok none := by
  rw [checkScript, Except.bind_ok]
  constructor
  · rintro ⟨found, first, passed⟩
    cases found with
    | none => exact first
    | some error =>
        dsimp only at passed
        split at passed
        · cases passed
        · rw [Except.bind_ok] at passed
          obtain ⟨again, _, passed⟩ := passed
          cases again <;> cases passed
  · exact fun passed => ⟨none, passed, rfl⟩

structure AgreeOn (used : Uint256 → Prop) (view other : CCoinsView) : Prop where
  record : ∀ hash, used hash → other.record hash = view.record hash
  hashBlock : other.hashBlock = view.hashBlock

theorem AgreeOn.modifyCoins {used : Uint256 → Prop} {view other : CCoinsView} (agree : AgreeOn used view other)
    (txid : Uint256) (coins : CCoins) :
    AgreeOn used (view.modifyCoins txid fun _ => coins) (other.modifyCoins txid fun _ => coins) := by
  refine ⟨fun hash mem => ?_, agree.hashBlock⟩
  rw [CCoinsView.record_modifyCoins, CCoinsView.record_modifyCoins, agree.record hash mem]

theorem AgreeOn.spendInputs {used : Uint256 → Prop} (vin : List CTxIn) {view other next : CCoinsView}
    {txundo : CTxUndo} (agree : AgreeOn used view other) (inside : ∀ txin ∈ vin, used txin.prevout.hash)
    (spent : CCoinsView.spendInputs vin view = some (next, txundo)) :
    ∃ after, CCoinsView.spendInputs vin other = some (after, txundo) ∧ AgreeOn used next after := by
  induction vin generalizing view other txundo with
  | nil =>
      cases spent
      exact ⟨other, rfl, agree⟩
  | cons txin vin ih =>
      obtain ⟨here, later⟩ := List.forall_mem_cons.mp inside
      obtain ⟨mid, undo, undos, first, rest, rfl⟩ :=
        (CCoinsView.spendInputs_cons _ _ _ _ _).mp spent
      obtain ⟨coins, taken, rfl⟩ := view.spendCoin_some _ _ _ first
      obtain ⟨after, ran, agrees⟩ := ih (agree.modifyCoins txin.prevout.hash coins) later rest
      have twin : other.spendCoin txin.prevout =
          some (other.modifyCoins txin.prevout.hash fun _ => coins, undo) := by
        rw [CCoinsView.spendCoin, agree.record _ here, taken, Option.map_some]
      exact ⟨after, (CCoinsView.spendInputs_cons _ _ _ _ _).mpr ⟨_, _, _, twin, ran, rfl⟩, agrees⟩

theorem AgreeOn.updateCoins [TxHasher] {used : Uint256 → Prop} {view other next : CCoinsView}
    {txundo : CTxUndo} (agree : AgreeOn used view other) (tx : CTransaction) (nHeight : Nat)
    (inside : ∀ txin ∈ tx.vin, used txin.prevout.hash)
    (updated : view.updateCoins tx nHeight = some (next, txundo)) :
    ∃ after, other.updateCoins tx nHeight = some (after, txundo) ∧ AgreeOn used next after := by
  obtain ⟨spent, first, rfl⟩ := view.updateCoins_some tx nHeight next txundo updated
  have twin : ∃ after, other.spendTransaction tx = some (after, txundo) ∧ AgreeOn used spent after := by
    rw [CCoinsView.spendTransaction] at first ⊢
    split at first
    next coinbase =>
      cases first
      exact ⟨other, if_pos coinbase, agree⟩
    next spending =>
      rw [if_neg spending]
      exact agree.spendInputs tx.vin inside first
  obtain ⟨after, taken, agrees⟩ := twin
  exact ⟨after.addOutputs tx nHeight, by rw [CCoinsView.updateCoins, taken, Option.map_some],
    agrees.modifyCoins _ _⟩

namespace Miner

variable {P : Type} {miner : Miner P} [TxHasher]

def Uses (miner : Miner P) (hash : Uint256) : Prop :=
  ∃ tx ∈ miner.eligibleTxs, hash = tx.getHash ∨ ∃ txin ∈ tx.vin, txin.prevout.hash = hash

/-- A script of the pool that holds by the mandatory rules holds by those of ConnectBlock too. -/
def Strict (miner : Miner P) : Prop :=
  ∀ tx ∈ miner.eligibleTxs, ∀ nIn script,
    miner.verifyScript MANDATORY_SCRIPT_VERIFY_FLAGS tx nIn script = none →
      miner.verifyScript connectFlags tx nIn script = none

omit [TxHasher] in
theorem eligible_spends (tx : CTransaction) (mem : tx ∈ miner.eligibleTxs) :
    tx.isCoinBase = false ∧ tx.isCoinStake = false := by
  obtain ⟨_, eligible⟩ := (mem_eligibleTxs tx).mp mem
  simp only [Miner.eligible, Bool.not_eq_true', Bool.or_eq_false_iff] at eligible
  exact eligible.1

theorem same_inputs {view other : CCoinsView} (agree : AgreeOn miner.Uses view other)
    (tx : CTransaction) (mem : tx ∈ miner.eligibleTxs) :
    ∀ txin ∈ tx.vin, other.record txin.prevout.hash = view.record txin.prevout.hash :=
  fun txin inside => agree.record _ ⟨tx, mem, .inr ⟨txin, inside, rfl⟩⟩

theorem Template.small {vtx : List CTransaction} {vTxFees : List Int} {vTxSigOps : List Nat}
    {view : CCoinsView} (template : miner.Template vtx vTxFees vTxSigOps view) :
    vtx = [] ∨ blockSize vtx < miner.nBlockMaxSize := by
  cases template with
  | empty => exact .inl rfl
  | add _ _ _ _ _ _ _ _ _ _ small _ =>
      refine .inr ?_
      rw [blockSize, List.map_append, List.sum_append, List.map_singleton, List.sum_singleton, ← Nat.add_assoc]
      exact small

section connecting

variable (ctx : BlockContext) (node : ctx.toNodeContext = miner.toNodeContext)

include node

theorem Included.checkBlockInputs {tx : CTransaction} {view other : CCoinsView} {nTxFees : Int}
    {nTxSigOps : Nat} (included : miner.Included tx view nTxFees nTxSigOps) (strict : miner.Strict)
    (mem : tx ∈ miner.eligibleTxs) (fScriptChecks : Bool) (agree : AgreeOn miner.Uses view other) :
    CryptoYen.checkBlockInputs ctx other fScriptChecks tx = .ok true := by
  obtain ⟨spending, _⟩ := eligible_spends tx mem
  have same := same_inputs agree tx mem
  have checked := included.checked
  rw [← node, checkInputs, spending, if_neg Bool.false_ne_true] at checked
  simp only [Except.bind_ok, exists_unit, if_true] at checked
  obtain ⟨value, scripts⟩ := checked
  rw [forM_ok] at scripts
  rw [← checkInputsValue_agree view other tx same ctx.toNodeContext agree.hashBlock] at value
  have passes (input : CTxIn × Nat) (inside : input ∈ tx.vin.zipIdx) :
      scriptCheck ctx.toNodeContext other connectFlags tx input.2 input.1 = .ok none := by
    have passed := (checkScript_ok _ _ _ _ _).mp (scripts input inside)
    simp only [scriptCheck, Except.bind_ok, assertion_ok, Except.pure_ok] at passed ⊢
    obtain ⟨txout, there, verified⟩ := passed
    refine ⟨txout, ?_, ?_⟩
    · rw [CCoinsView.coinAt, same _ (List.fst_mem_of_mem_zipIdx inside)]
      exact there
    · rw [node] at verified ⊢
      exact strict tx mem _ _ verified
  rw [CryptoYen.checkBlockInputs]
  split
  · have direct : checkInputs ctx.toNodeContext tx other fScriptChecks connectFlags = .ok () := by
      rw [checkInputs, spending, if_neg Bool.false_ne_true, value]
      cases fScriptChecks with
      | false => rfl
      | true => exact (forM_ok _ _).mpr fun input inside => (checkScript_ok _ _ _ _ _).mpr (passes input inside)
    rw [direct]
    rfl
  · rw [value, queueScriptChecks]
    cases fScriptChecks with
    | false => rfl
    | true =>
        have queued (inputs : List (CTxIn × Nat)) (inside : ∀ input ∈ inputs, input ∈ tx.vin.zipIdx) :
            (inputs.mapM fun input =>
              scriptCheck ctx.toNodeContext other connectFlags tx input.2 input.1) =
              .ok (inputs.map fun _ => none) := by
          induction inputs with
          | nil => rfl
          | cons input inputs ih =>
              obtain ⟨here, later⟩ := List.forall_mem_cons.mp inside
              rw [List.mapM_cons, passes input here, ih later]
              rfl
        rw [if_pos rfl, queued _ fun input inside => inside]
        simp [bind, Except.bind, pure, Except.pure]

theorem Included.connectTransaction {tx : CTransaction} {view next : CCoinsView} {state : ConnectState}
    {nTxFees : Int} {nTxSigOps : Nat} {txundo : CTxUndo}
    (included : miner.Included tx view nTxFees nTxSigOps) (strict : miner.Strict) (mem : tx ∈ miner.eligibleTxs)
    (valid : validOutPoint ctx.params miner.nHeight.toNat = true)
    (updated : view.updateCoins tx miner.nHeight.toNat = some (next, txundo)) (fScriptChecks : Bool)
    (agree : AgreeOn miner.Uses view state.view) (limited : state.nSigOps + nTxSigOps ≤ MAX_BLOCK_SIGOPS) :
    ∃ final, CryptoYen.connectTransaction ctx miner.nHeight.toNat fScriptChecks state tx = .ok final ∧
      AgreeOn miner.Uses next final.view ∧ final.nSigOps = state.nSigOps + nTxSigOps ∧
      final.nFees = state.nFees + nTxFees ∧ final.fChecksPass = state.fChecksPass := by
  obtain ⟨spending, notStake⟩ := eligible_spends tx mem
  have same := same_inputs agree tx mem
  obtain ⟨nValueIn, nValueOut, valueIn, valueOut, rfl⟩ := included.fees
  obtain ⟨nP2SHSigOps, counted, rfl⟩ := included.sigOps
  obtain ⟨after, applied, agrees⟩ := agree.updateCoins tx miner.nHeight.toNat
    (fun txin inside => ⟨tx, mem, .inr ⟨txin, inside, rfl⟩⟩) updated
  have available := (haveInputs_agree view state.view tx same).trans included.have_inputs
  rw [← getValueIn_agree view state.view tx same] at valueIn
  rw [← getP2SHSigOpCount_agree view state.view tx same] at counted
  have checks := included.checkBlockInputs ctx node strict mem fScriptChecks agree
  have legacy : sigOpsLimit (state.nSigOps + getLegacySigOpCount tx) = .ok () := by
    rw [sigOpsLimit, require_ok, Bool.not_eq_true', decide_eq_false_iff_not]
    omega
  have all : sigOpsLimit (state.nSigOps + getLegacySigOpCount tx + nP2SHSigOps) = .ok () := by
    rw [sigOpsLimit, require_ok, Bool.not_eq_true', decide_eq_false_iff_not]
    omega
  have paid : txFees state.view tx = .ok (nValueIn - nValueOut) := by
    rw [txFees_ok _ _ _ _ _ valueIn valueOut, notStake, if_neg Bool.false_ne_true]
  have outpoints : (tx.vin.all fun _ => validOutPoint ctx.params miner.nHeight.toNat) = true :=
    List.all_eq_true.mpr fun _ _ => valid
  refine ⟨{ state with
    view := after
    nSigOps := state.nSigOps + getLegacySigOpCount tx + nP2SHSigOps
    nFees := state.nFees + (nValueIn - nValueOut)
    nValueIn := state.nValueIn + nValueIn
    nValueOut := state.nValueOut + nValueOut
    vtxundo := state.vtxundo ++ [txundo]
    fChecksPass := state.fChecksPass && true }, ?_, agrees, Nat.add_assoc _ _ _, rfl, Bool.and_true _⟩
  · simp only [CryptoYen.connectTransaction, legacy, connectUnlessCoinBase, spending, Bool.false_eq_true,
      if_false, connectInputs, available, outpoints, counted, all, paid, valueIn, checks, valueOut, applied,
      require, assertion, bind, Except.bind, pure, Except.pure, if_true]

theorem Template.connects {vtx : List CTransaction} {vTxFees : List Int} {vTxSigOps : List Nat}
    {view : CCoinsView} (template : miner.Template vtx vTxFees vTxSigOps view) (strict : miner.Strict)
    (valid : validOutPoint ctx.params miner.nHeight.toNat = true)
    (fScriptChecks : Bool) (start : ConnectState) (agree : AgreeOn miner.Uses miner.pcoinsTip start.view)
    (reserved : start.nSigOps ≤ 100) :
    ∃ final, vtx.foldlM (CryptoYen.connectTransaction ctx miner.nHeight.toNat fScriptChecks) start = .ok final ∧
      AgreeOn miner.Uses view final.view ∧ final.nSigOps = start.nSigOps + vTxSigOps.sum ∧
      final.nFees = start.nFees + vTxFees.sum ∧ final.fChecksPass = start.fChecksPass := by
  induction template with
  | empty => exact ⟨start, rfl, agree, rfl, (Int.add_zero _).symm, rfl⟩
  | add _ tx nTxFees nTxSigOps next txundo mem _ included updated _ limited ih =>
      obtain ⟨mid, ran, agrees, sigOps, fees, passes⟩ := ih
      obtain ⟨final, connected, after, counted, paid, passed⟩ := included.connectTransaction ctx node
        strict mem valid updated fScriptChecks agrees (by omega)
      refine ⟨final, ?_, after, ?_, ?_, passed.trans passes⟩
      · rw [List.foldlM_append, ran]
        simp [connected]
      · rw [counted, sigOps, List.sum_append, List.sum_singleton, Nat.add_assoc]
      · rw [paid, fees, List.sum_append, List.sum_singleton, Int.add_assoc]

end connecting

/-- The validation of blocks takes what the miner has put together: on the coins of the tip, as the
block's own transactions have left them, the loop passes every transaction and collects the same
fees. -/
theorem createNewBlock_connects (minable : miner.Minable) (strict : miner.Strict) (ctx : BlockContext)
    (node : ctx.toNodeContext = miner.toNodeContext)
    (valid : validOutPoint ctx.params miner.nHeight.toNat = true) (fScriptChecks : Bool)
    (start : ConnectState) (untouched : AgreeOn miner.Uses miner.pcoinsTip start.view)
    (reserved : start.nSigOps ≤ 100) :
    ∃ block final, miner.createNewBlock = some block ∧
      block.vtx.foldlM (connectTransaction ctx miner.nHeight.toNat fScriptChecks) start = .ok final ∧
      final.nFees = start.nFees + block.nFees ∧ final.fChecksPass = start.fChecksPass ∧
      final.nSigOps + 100 = start.nSigOps + block.nBlockSigOps ∧
      block.nBlockTx = block.vtx.length ∧
      block.nBlockSize = 1000 + (block.vtx.map CTransaction.getSerializeSize).sum ∧
      (block.vtx = [] ∨ block.nBlockSize < miner.nBlockMaxSize) := by
  obtain ⟨gathered, block, considered, ran, _, scheduled⟩ := createNewBlock_scheduled minable
  have assembled := scheduled.assembled
  obtain ⟨final, connected, _, sigOps, fees, passes⟩ := assembled.template.connects ctx node strict valid
    fScriptChecks start untouched reserved
  refine ⟨block, final, ran, connected, ?_, passes, ?_, assembled.count, assembled.size, ?_⟩
  · rw [fees, assembled.fees]
  · rw [sigOps, assembled.sigOps]
    omega
  · rw [assembled.size]
    exact assembled.template.small

end Miner

theorem Miner.createNewBlock_connects_chained :
    ∃ block final, @Miner.createNewBlock Rat ChainedPool.miner DoubleSpend.valueHasher = some block ∧
      block.vtx.foldlM (@connectTransaction DoubleSpend.valueHasher
        ⟨ChainedPool.miner.toNodeContext, true, true, fun _ _ => true, .ok ()⟩
        ChainedPool.miner.nHeight.toNat true) (ConnectState.start ChainedPool.miner.pcoinsTip) = .ok final ∧
      final.nFees = block.nFees := by
  obtain ⟨block, final, made, connected, fees, _⟩ :=
    @Miner.createNewBlock_connects Rat ChainedPool.miner DoubleSpend.valueHasher ChainedPool.minable
      (fun _ _ _ _ _ => rfl) ⟨ChainedPool.miner.toNodeContext, true, true, fun _ _ => true, .ok ()⟩ rfl
      (by decide) true (ConnectState.start ChainedPool.miner.pcoinsTip) ⟨fun _ _ => rfl, rfl⟩ (by decide)
  exact ⟨block, final, made, connected, fees.trans (Int.zero_add _)⟩

end CryptoYen
