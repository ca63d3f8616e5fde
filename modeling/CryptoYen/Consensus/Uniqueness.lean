import CryptoYen.Consensus.Chainstate
import CryptoYen.Consensus.ContextualCheck
import CryptoYen.Consensus.Ledger
import CryptoYen.Primitives.Script

set_option autoImplicit false

namespace CryptoYen

namespace CCoinsView

variable [TxHasher]

def NeverOverwrites (nHeight : Nat) : List CTransaction → CCoinsView → Prop
  | [], _ => True
  | tx :: rest, view =>
      view.WritesFresh tx ∧
        ∀ next undo, view.updateCoins tx nHeight = some (next, undo) →
          NeverOverwrites nHeight rest next

end CCoinsView

def StartsWithHeight (tx : CTransaction) (nHeight : Nat) : Prop :=
  ∃ txin, tx.vin.head? = some txin ∧ CScript.pushInt64 (nHeight : Int) <+: txin.scriptSig

theorem startsWithHeight_unique (tx : CTransaction) (first second : Nat)
    (firstBound : first < 2 ^ 31) (secondBound : second < 2 ^ 31)
    (isFirst : StartsWithHeight tx first) (isSecond : StartsWithHeight tx second) :
    first = second := by
  obtain ⟨txin, input, starts⟩ := isFirst
  obtain ⟨other, sameInput, alsoStarts⟩ := isSecond
  rw [input] at sameInput
  cases sameInput
  exact CScript.pushInt64_prefix_injective first second (by omega) (by omega) txin.scriptSig
    starts alsoStarts

section

variable [TxHasher]

/-- What the transactions written so far say about a view. Spent coins stay spent because their
transaction is never written again; coinbases carry the height of their block. -/
structure Written (limit : Nat) (written : List CTransaction) (view : CCoinsView) : Prop where
  source : ∀ out txout, view.coinAt out = some txout → ∃ tx ∈ written, tx.getHash = out.hash
  spent : ∀ tx ∈ written, tx.isCoinBase = false → ∀ out ∈ tx.prevouts,
    view.coinAt out = none ∧ ∃ parent ∈ written, parent.getHash = out.hash
  heights : ∀ tx ∈ written, tx.isCoinBase = true →
    ∃ nHeight, nHeight < limit ∧ StartsWithHeight tx nHeight

namespace Written

variable {limit : Nat} {written : List CTransaction} {view : CCoinsView}

theorem unwritten_spending (inv : Written limit written view) (tx : CTransaction)
    (injective : ∀ other ∈ written, other.getHash = tx.getHash → other = tx)
    (spending : tx.isCoinBase = false) (txin : CTxIn) (input : txin ∈ tx.vin)
    (available : view.isAvailable txin.prevout = true) : Unwritten written tx := by
  intro other member same
  have eq := injective other member same
  subst eq
  have gone := (inv.spent other member spending txin.prevout (List.mem_map_of_mem input)).1
  rw [CCoinsView.isAvailable_eq, gone] at available
  cases available

theorem unwritten_coinbase (inv : Written limit written view) (tx : CTransaction)
    (injective : ∀ other ∈ written, other.getHash = tx.getHash → other = tx)
    (coinbase : tx.isCoinBase = true) (bound : limit < 2 ^ 31)
    (starts : StartsWithHeight tx limit) : Unwritten written tx := by
  intro other member same
  have eq := injective other member same
  subst eq
  obtain ⟨nHeight, below, alsoStarts⟩ := inv.heights other member coinbase
  have same := startsWithHeight_unique other nHeight limit (by omega) bound alsoStarts starts
  omega

theorem pruned_of_unwritten (inv : Written limit written view) (tx : CTransaction)
    (unwritten : Unwritten written tx) (nPos : Nat) : view.coinAt ⟨tx.getHash, nPos⟩ = none := by
  by_contra present
  obtain ⟨txout, found⟩ := Option.ne_none_iff_exists'.mp present
  obtain ⟨other, member, same⟩ := inv.source _ txout found
  exact unwritten other member same

theorem writesFresh (inv : Written limit written view) (tx : CTransaction)
    (unwritten : Unwritten written tx) : view.WritesFresh tx := by
  intro spent undo taken
  rw [CCoins.isPruned_iff_coin]
  intro nPos
  by_contra present
  obtain ⟨txout, found⟩ := Option.ne_none_iff_exists'.mp present
  have before :=
    view.spendTransaction_coinAt spent tx undo taken ⟨tx.getHash, nPos⟩ txout found
  rw [inv.pruned_of_unwritten tx unwritten] at before
  cases before

theorem ledger (inv : Written limit written view) : Ledger written view := ⟨inv.source, inv.spent⟩

theorem write (inv : Written limit written view) (tx : CTransaction) (nHeight : Nat)
    (next : CCoinsView) (undo : CTxUndo) (unwritten : Unwritten written tx)
    (updated : view.updateCoins tx nHeight = some (next, undo)) (newLimit : Nat)
    (grows : limit ≤ newLimit)
    (coinbase : tx.isCoinBase = true → ∃ height, height < newLimit ∧ StartsWithHeight tx height) :
    Written newLimit (tx :: written) next := by
  have grown := inv.ledger.write tx nHeight next undo unwritten updated
  refine ⟨grown.source, grown.spent, ?_⟩
  intro other member isCoinBase
  rcases List.mem_cons.mp member with same | before
  · subst same
    exact coinbase isCoinBase
  · obtain ⟨height, below, starts⟩ := inv.heights other before isCoinBase
    exact ⟨height, by omega, starts⟩

theorem run_spending (known : CTransaction → Prop)
    (injective : ∀ first second, known first → known second →
      first.getHash = second.getHash → first = second)
    (nHeight : Nat) (rest : List CTransaction)
    (spending : ∀ tx ∈ rest, tx.isCoinBase = false ∧ tx.vin ≠ [] ∧ known tx)
    (inv : Written limit written view) (writtenKnown : ∀ tx ∈ written, known tx)
    (last : CCoinsView) (vtxundo : List CTxUndo)
    (updated : updateBlockCoins nHeight rest view = some (last, vtxundo)) :
    CCoinsView.NeverOverwrites nHeight rest view ∧
      ∃ after, (∀ tx ∈ after, known tx) ∧ Written limit after last := by
  induction rest generalizing view written vtxundo with
  | nil =>
      cases updated
      exact ⟨trivial, written, writtenKnown, inv⟩
  | cons tx rest ih =>
      obtain ⟨next, undo, undos, first, others, rfl⟩ :=
        (updateBlockCoins_cons _ _ _ _ _ _).mp updated
      obtain ⟨⟨notCoinBase, inputs, knownTx⟩, later⟩ := List.forall_mem_cons.mp spending
      obtain ⟨spent, taken, _⟩ := view.updateCoins_some tx nHeight next undo first
      have isSome : (CCoinsView.spendInputs tx.vin view).isSome = true := by
        rw [← view.updateCoins_isSome tx nHeight notCoinBase, first]
        rfl
      obtain ⟨_, available⟩ := (CCoinsView.spendInputs_isSome tx.vin view).mp isSome
      obtain ⟨txin, inVin⟩ := List.exists_mem_of_ne_nil tx.vin inputs
      have unwritten := inv.unwritten_spending tx
        (fun other member same => injective other tx (writtenKnown other member) knownTx same)
        notCoinBase txin inVin (available txin inVin)
      have nextInv := inv.write tx nHeight next undo unwritten first limit le_rfl
        (fun coinbase => by rw [notCoinBase] at coinbase; cases coinbase)
      have nextKnown : ∀ other ∈ tx :: written, known other :=
        List.forall_mem_cons.mpr ⟨knownTx, writtenKnown⟩
      obtain ⟨fresh, rest⟩ := ih later nextInv nextKnown undos others
      refine ⟨⟨inv.writesFresh tx unwritten, ?_⟩, rest⟩
      intro other otherUndo again
      rw [first] at again
      cases again
      exact fresh

theorem setBestBlock (inv : Written limit written view) (hash : Uint256) :
    Written limit written (view.setBestBlock hash) :=
  ⟨inv.source, inv.spent, inv.heights⟩

theorem run_block (known : CTransaction → Prop)
    (injective : ∀ first second, known first → known second →
      first.getHash = second.getHash → first = second)
    (nHeight : Nat) (coinbase : CTransaction) (rest : List CTransaction)
    (isCoinBase : coinbase.isCoinBase = true) (knownCoinBase : known coinbase)
    (spending : ∀ tx ∈ rest, tx.isCoinBase = false ∧ tx.vin ≠ [] ∧ known tx)
    (bound : nHeight < 2 ^ 31) (starts : StartsWithHeight coinbase nHeight)
    (inv : Written nHeight written view) (writtenKnown : ∀ tx ∈ written, known tx)
    (last : CCoinsView) (vtxundo : List CTxUndo)
    (updated : updateBlockCoins nHeight (coinbase :: rest) view = some (last, vtxundo)) :
    CCoinsView.NeverOverwrites nHeight (coinbase :: rest) view ∧
      ∃ after, (∀ tx ∈ after, known tx) ∧ Written (nHeight + 1) after last := by
  obtain ⟨next, undo, undos, first, others, rfl⟩ := (updateBlockCoins_cons _ _ _ _ _ _).mp updated
  have unwritten := inv.unwritten_coinbase coinbase
    (fun other member same => injective other coinbase (writtenKnown other member) knownCoinBase same)
    isCoinBase bound starts
  have nextInv := inv.write coinbase nHeight next undo unwritten first (nHeight + 1) (by omega)
    (fun _ => ⟨nHeight, by omega, starts⟩)
  obtain ⟨fresh, after⟩ := run_spending known injective nHeight rest spending nextInv
    (List.forall_mem_cons.mpr ⟨knownCoinBase, writtenKnown⟩) _ undos others
  refine ⟨⟨inv.writesFresh coinbase unwritten, ?_⟩, after⟩
  intro other otherUndo again
  rw [first] at again
  cases again
  exact fresh

end Written

namespace ChainState

variable [BlockHasher] [MerkleHasher] (params : CChainParams)

structure Contextual (state : ChainState) (tip : TipBlock) : Prop where
  header : ∃ ctx : BlockContext, ctx.params = params ∧
    contextualCheckBlockHeader ctx tip.block.toCBlockHeader state.chain = .ok ()
  body : ∃ ctx : BlockContext, contextualCheckBlock ctx tip.block state.chain = .ok ()
  promised : CheckedBefore tip.block tip.fAlreadyChecked

theorem Contextual.starts {state : ChainState} {tip : TipBlock}
    (contextual : Contextual params state tip)
    (notGenesis : tip.block.getHash ≠ params.hashGenesisBlock) (coinbase : CTransaction)
    (rest : List CTransaction) (vtx : tip.block.vtx = coinbase :: rest) :
    StartsWithHeight coinbase state.nextHeight := by
  obtain ⟨headerCtx, rfl, header⟩ := contextual.header
  obtain ⟨bodyCtx, body⟩ := contextual.body
  have version := contextualCheckBlockHeader_version headerCtx tip.block.toCBlockHeader
    state.chain header notGenesis
  obtain ⟨first, txin, isFirst, input, prefixed⟩ :=
    contextualCheckBlock_height bodyCtx tip.block state.chain body version
  rw [vtx] at isFirst
  cases isFirst
  refine ⟨txin, input, ?_⟩
  have height : ((state.nextHeight : Nat) : Int) = state.chain.height + 1 := by
    rw [nextHeight, Int.toNat_of_nonneg]
    cases state.chain with
    | nil => simp [CChain.height]
    | cons pindex ancestors =>
        simp only [CChain.height]
        omega
  rw [height]
  exact prefixed

structure Accounted (known : CTransaction → Prop) (state : ChainState) : Prop where
  grounded : state.Grounded params
  written : ∃ written, (∀ tx ∈ written, known tx) ∧ Written state.nextHeight written state.view

omit [MerkleHasher] in
theorem genesis_accounted (known : CTransaction → Prop) :
    Accounted params known (genesis params) := by
  refine ⟨genesis_grounded params, [], by simp, ?_⟩
  constructor
  · intro out txout present
    cases present
  · intro tx member
    cases member
  · intro tx member
    cases member

theorem step_accounted (known : CTransaction → Prop)
    (injective : ∀ first second, known first → known second →
      first.getHash = second.getHash → first = second)
    (state : ChainState) (tip : TipBlock) (next : ChainState)
    (accounted : Accounted params known state) (contextual : Contextual params state tip)
    (blockKnown : ∀ tx ∈ tip.block.vtx, known tx)
    (stepped : state.step params tip = some next) :
    CCoinsView.NeverOverwrites state.nextHeight tip.block.vtx state.view ∧
      Accounted params known next := by
  obtain ⟨grounded, written, writtenKnown, inv⟩ := accounted
  have nextGrounded := state.step_grounded params tip next grounded stepped
  obtain ⟨extends_chain, _⟩ := state.step_some params tip next stepped
  obtain ⟨pprev, last, result, connected, blockConnected, rfl⟩ :=
    state.step_connected params tip next grounded stepped
  have notGenesis := grounded.not_genesis tip.block extends_chain
  have bound : state.nextHeight < 2 ^ 31 := by
    simp only [canExtend, Bool.and_eq_true, decide_eq_true_eq] at extends_chain
    exact extends_chain.2
  obtain ⟨checked, _, _⟩ := connectBlock_ok _ _ _ _ _ _ _ connected
  obtain ⟨shapeParams, ⟨coinbase, rest, vtx, isCoinBase, others⟩, transactions, _⟩ :=
    connectBlock_shape _ _ _ _ checked contextual.promised
  have starts := contextual.starts params notGenesis coinbase rest vtx
  obtain ⟨vtxundo, updated, _⟩ := connectTransactions_run _ _ _ _ _ _ blockConnected.run
  have spending : ∀ tx ∈ rest, tx.isCoinBase = false ∧ tx.vin ≠ [] ∧ known tx := by
    intro tx member
    have inBlock : tx ∈ tip.block.vtx := by
      rw [vtx]
      exact List.mem_cons_of_mem _ member
    have passes := ((checkTransaction_ok shapeParams tx).mp (transactions tx inBlock)).vin
    exact ⟨others tx member, passes, blockKnown tx inBlock⟩
  have knownCoinBase : known coinbase := blockKnown coinbase (by rw [vtx]; exact List.mem_cons_self)
  rw [vtx] at updated ⊢
  obtain ⟨fresh, after, afterKnown, afterInv⟩ := Written.run_block known injective state.nextHeight
    coinbase rest isCoinBase knownCoinBase spending bound starts inv writtenKnown last.view vtxundo
    updated
  refine ⟨fresh, nextGrounded, after, afterKnown, ?_⟩
  rw [nextGrounded.nextHeight_eq, List.length_cons, ← grounded.nextHeight_eq]
  obtain ⟨_, _, stored⟩ := finishConnect_ok _ _ _ _ _ _ blockConnected.finished
  rcases stored with justChecked | stored
  · cases justChecked.1
  · obtain ⟨_, ⟨hash, _, resultView⟩, _⟩ := stored
    rw [resultView]
    exact afterInv.setBestBlock hash

/-- With injective transaction ids no chain of accepted blocks ever writes a transaction over open
outputs: whatever run of blocks led to a state, the next block does not. -/
theorem coins_never_overwritten (before : List TipBlock) (tip : TipBlock)
    (state next : ChainState)
    (injective : Set.InjOn CTransaction.getHash
      {tx | ∃ connected ∈ before ++ [tip], tx ∈ connected.block.vtx})
    (contextual : Machine.Along (Contextual params) (step params) (genesis params)
      (before ++ [tip]))
    (ran : Machine.run (step params) (genesis params) before = some state)
    (stepped : state.step params tip = some next) :
    CCoinsView.NeverOverwrites state.nextHeight tip.block.vtx state.view := by
  let known : CTransaction → Prop :=
    fun tx => ∃ connected ∈ before ++ [tip], tx ∈ connected.block.vtx
  have apart : ∀ first second, known first → known second →
      first.getHash = second.getHash → first = second :=
    fun first second isFirst isSecond same => injective isFirst isSecond same
  rw [Machine.along_append] at contextual
  obtain ⟨earlier, here⟩ := contextual
  have blocks : Machine.Along
      (fun state connected => Contextual params state connected ∧
        ∀ tx ∈ connected.block.vtx, known tx) (step params) (genesis params) before := by
    apply Machine.along_mono (Contextual params) _ _ _ before _ earlier
    intro state connected member passes
    exact ⟨passes, fun tx inBlock => ⟨connected, List.mem_append_left _ member, inBlock⟩⟩
  have accounted : Accounted params known state := by
    apply Machine.run_invariant (step params) _ (Accounted params known) _ (genesis params) state
      before (genesis_accounted params known) blocks ran
    intro state connected next accounted passes stepped
    exact (step_accounted params known apart state connected next accounted passes.1 passes.2
      stepped).2
  have tipKnown : ∀ tx ∈ tip.block.vtx, known tx := by
    intro tx inBlock
    exact ⟨tip, List.mem_append_right _ (List.mem_singleton.mpr rfl), inBlock⟩
  exact (step_accounted params known apart state tip next accounted (here state ran).1 tipKnown
    stepped).1

end ChainState

end

namespace FirstBlocks

def params : CChainParams := CChainParams.testNetParams

def tip (nTime : Nat) (height : UInt8) (nValue : Int) : TipBlock where
  ctx := downloadingNode params
  block :=
    { nVersion := 2
      hashPrevBlock := 0
      hashMerkleRoot := BitVec.ofInt 256 nValue
      nTime := nTime
      nBits := 0x1e0fffff
      nNonce := 0
      vtx := [⟨1, [⟨COutPoint.null, [height, 0], 0xffffffff⟩], [⟨nValue, [OP_1]⟩], 0⟩]
      vchBlockSig := [] }
  fAlreadyChecked := false

def first : TipBlock := tip 1536062501 0x51 1000
def second : TipBlock := tip 1536062601 0x52 2000

def genesis : ChainState := @ChainState.genesis timeHasher params

def step : ChainState → TipBlock → Option ChainState :=
  @ChainState.step outputHasher timeHasher leftHasher params

def firstChain : CChain :=
  [⟨1536062501, 1, 2, 1536062501, 0x1e0fffff, 1000⟩,
    ⟨1536062401, 0, 1, 1536062401, 0x1e0fffff, 0⟩]

theorem first_chain (state : ChainState) (stepped : step genesis first = some state) :
    state.chain = firstChain := by
  have chain : (step genesis first).map ChainState.chain = some firstChain := by
    decide +kernel
  rw [stepped] at chain
  exact Option.some.inj chain

theorem contextual :
    Machine.Along (@ChainState.Contextual outputHasher timeHasher leftHasher params) step genesis
      ([first] ++ [second]) := by
  constructor
  · apply @ChainState.Contextual.mk outputHasher timeHasher leftHasher
    · exact ⟨first.ctx, rfl, by decide +kernel⟩
    · exact ⟨first.ctx, by decide +kernel⟩
    · intro checked
      cases checked
  · intro state stepped
    have chain := first_chain state stepped
    constructor
    · apply @ChainState.Contextual.mk outputHasher timeHasher leftHasher
      · exact ⟨second.ctx, rfl, by rw [chain]; decide +kernel⟩
      · exact ⟨second.ctx, by rw [chain]; decide +kernel⟩
      · intro checked
        cases checked
    · intro next _
      trivial

theorem distinct_ids : Set.InjOn (@CTransaction.getHash outputHasher)
    {tx | ∃ connected ∈ [first] ++ [second], tx ∈ connected.block.vtx} := by
  intro tx member other otherMember same
  have listed : ∀ tx, (∃ connected ∈ [first] ++ [second], tx ∈ connected.block.vtx) →
      tx ∈ first.block.vtx ++ second.block.vtx := by
    intro tx known
    obtain ⟨connected, isTip, inBlock⟩ := known
    rcases List.mem_append.mp isTip with isFirst | isSecond
    · rw [List.mem_singleton.mp isFirst] at inBlock
      exact List.mem_append_left _ inBlock
    · rw [List.mem_singleton.mp isSecond] at inBlock
      exact List.mem_append_right _ inBlock
  have apart : ∀ tx ∈ first.block.vtx ++ second.block.vtx,
      ∀ other ∈ first.block.vtx ++ second.block.vtx,
        @CTransaction.getHash outputHasher tx = @CTransaction.getHash outputHasher other →
          tx = other := by
    decide +kernel
  exact apart tx (listed tx member) other (listed other otherMember) same

end FirstBlocks

theorem coins_never_overwritten_second :
    ∃ state, FirstBlocks.step FirstBlocks.genesis FirstBlocks.first = some state ∧
      @CCoinsView.NeverOverwrites outputHasher state.nextHeight FirstBlocks.second.block.vtx
        state.view := by
  have runs : (Machine.run FirstBlocks.step FirstBlocks.genesis
      ([FirstBlocks.first] ++ [FirstBlocks.second])).isSome = true := by
    decide +kernel
  obtain ⟨next, ran⟩ := Option.isSome_iff_exists.mp runs
  rw [Machine.run_append] at ran
  obtain ⟨state, ranFirst, ranSecond⟩ := Option.bind_eq_some_iff.mp ran
  obtain ⟨_, steppedFirst, same⟩ := Option.bind_eq_some_iff.mp ranFirst
  cases same
  obtain ⟨_, steppedSecond, same⟩ := Option.bind_eq_some_iff.mp ranSecond
  cases same
  exact ⟨state, steppedFirst, @ChainState.coins_never_overwritten outputHasher timeHasher leftHasher
    FirstBlocks.params [FirstBlocks.first] FirstBlocks.second state next FirstBlocks.distinct_ids
    FirstBlocks.contextual ranFirst steppedSecond⟩

end CryptoYen
