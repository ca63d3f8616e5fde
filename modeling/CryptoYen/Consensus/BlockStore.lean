import CryptoYen.Consensus.Chainstate
import CryptoYen.Consensus.Ledger

set_option autoImplicit false

namespace CryptoYen

/-- The blocks that a node has indexed: each entry has its block, and the parents lead to the
genesis block. -/
structure BlockStore where
  genesis : CBlockIndex
  pprev : CBlockIndex → Option CBlockIndex
  block : CBlockIndex → CBlock
  root : pprev genesis = none

namespace BlockStore

variable (store : BlockStore)

def IsChain : CChain → Prop
  | [] => False
  | [pindex] => pindex = store.genesis
  | pindex :: parent :: older => store.pprev pindex = some parent ∧ IsChain (parent :: older)

theorem IsChain.unique {store : BlockStore} {chain other : CChain} (isChain : store.IsChain chain)
    (otherChain : store.IsChain other) (same : chain.head? = other.head?) : chain = other := by
  induction chain generalizing other with
  | nil => cases isChain
  | cons pindex older ih =>
      match other with
      | [] => cases otherChain
      | head :: rest =>
          cases same
          match older, rest with
          | [], [] => rfl
          | [], _ :: _ =>
              have above := otherChain.1
              rw [isChain, store.root] at above
              cases above
          | _ :: _, [] =>
              have above := isChain.1
              rw [otherChain, store.root] at above
              cases above
          | parent :: older, head :: rest =>
              have above := isChain.1.symm.trans otherChain.1
              rw [ih isChain.2 otherChain.2 above]

theorem IsChain.genesis_mem {store : BlockStore} {chain : CChain} (isChain : store.IsChain chain) :
    store.genesis ∈ chain := by
  induction chain with
  | nil => cases isChain
  | cons pindex older ih =>
      match older with
      | [] =>
          rw [isChain]
          exact List.mem_cons_self
      | parent :: older => exact List.mem_cons_of_mem _ (ih isChain.2)

-- The transactions of a chain, the newest in front. Those of the genesis block create no coins.
def transactions : CChain → List CTransaction
  | [] => []
  | [_] => []
  | pindex :: parent :: older =>
      (store.block pindex).vtx.reverse ++ transactions (parent :: older)

theorem IsChain.mem_transactions {store : BlockStore} {chain : CChain} (isChain : store.IsChain chain)
    (pindex : CBlockIndex) (member : pindex ∈ chain) (other : pindex ≠ store.genesis)
    (tx : CTransaction) (inBlock : tx ∈ (store.block pindex).vtx) :
    tx ∈ store.transactions chain := by
  induction chain with
  | nil => cases member
  | cons head older ih =>
      match older with
      | [] =>
          rw [List.mem_singleton.mp member] at other
          exact absurd isChain other
      | parent :: older =>
          rw [transactions, List.mem_append, List.mem_reverse]
          rcases List.mem_cons.mp member with rfl | behind
          · exact Or.inl inBlock
          · exact Or.inr (ih isChain.2 behind)

variable [TxHasher]

def coinsAt : CChain → Option CCoinsView
  | [] => none
  | [pindex] => some (CCoinsView.empty pindex.phashBlock)
  | pindex :: parent :: older => do
      let view ← coinsAt (parent :: older)
      let (last, _) ← updateBlockCoins pindex.nHeight (store.block pindex).vtx view
      pure (last.setBestBlock pindex.phashBlock)

theorem coinsAt_ledger (chain : CChain) (view : CCoinsView)
    (reached : store.coinsAt chain = some view)
    (distinct : ((store.transactions chain).map CTransaction.getHash).Nodup) :
    Ledger (store.transactions chain) view := by
  induction chain generalizing view with
  | nil => cases reached
  | cons pindex older ih =>
      match older with
      | [] =>
          cases reached
          exact Ledger.empty _
      | parent :: older =>
          simp only [coinsAt, Option.bind_eq_bind, Option.bind_eq_some_iff, Option.pure_def,
            Option.some.injEq] at reached
          obtain ⟨before, reachedBefore, ⟨last, vtxundo⟩, updated, rfl⟩ := reached
          rw [transactions] at distinct ⊢
          have distinctBefore : ((store.transactions (parent :: older)).map
              CTransaction.getHash).Nodup := by
            rw [List.map_append] at distinct
            exact (List.nodup_append.mp distinct).2.1
          have ledger := ih before reachedBefore distinctBefore
          exact (ledger.write_block pindex.nHeight _ last vtxundo distinct updated).setBestBlock _

theorem coinsAt_unspent (chain : CChain) (view : CCoinsView) (isChain : store.IsChain chain)
    (reached : store.coinsAt chain = some view)
    (distinct : ((store.transactions chain).map CTransaction.getHash).Nodup) (out : COutPoint)
    (exists_coin : out.isNull = false) (available : view.isAvailable out = true)
    (pindex : CBlockIndex) (member : pindex ∈ chain) (other : pindex ≠ store.genesis)
    (tx : CTransaction) (inBlock : tx ∈ (store.block pindex).vtx) : out ∉ tx.prevouts :=
  (store.coinsAt_ledger chain view reached distinct).unspent out exists_coin available tx
    (isChain.mem_transactions pindex member other tx inBlock)

section Connected

variable [BlockHasher] [MerkleHasher] (params : CChainParams)

def Records (state : ChainState) (tip : TipBlock) : Prop :=
  ∀ next pindex, state.step params tip = some next → next.chain.head? = some pindex →
    store.block pindex = tip.block

theorem step_coinsAt (state : ChainState) (tip : TipBlock) (next : ChainState)
    (grounded : state.Grounded params) (reached : store.coinsAt state.chain = some state.view)
    (records : store.Records params state tip) (stepped : state.step params tip = some next) :
    store.coinsAt next.chain = some next.view := by
  have recorded := records next
  obtain ⟨pprev, last, result, connected, blockConnected, rfl⟩ :=
    state.step_connected params tip next grounded stepped
  have block := recorded _ stepped rfl
  obtain ⟨vtxundo, updated, _⟩ := connectTransactions_run _ _ _ _ _ _ blockConnected.run
  obtain ⟨_, _, stored⟩ := finishConnect_ok _ _ _ _ _ _ blockConnected.finished
  rcases stored with justChecked | stored
  · cases justChecked.1
  · obtain ⟨_, ⟨hash, present, resultView⟩, _⟩ := stored
    cases present
    cases chain : state.chain with
    | nil =>
        rw [chain] at reached
        cases reached
    | cons parent older =>
        rw [chain] at reached
        have here : updateBlockCoins state.nextHeight tip.block.vtx state.view =
            some (last.view, vtxundo) := updated
        rw [coinsAt, reached, Option.bind_eq_bind, Option.bind_some, block, resultView]
        simp only [CBlockHeader.indexEntry, here]
        rfl

theorem run_coinsAt (tips : List TipBlock) (final : ChainState)
    (records : Machine.Along (store.Records params) (ChainState.step params)
      (ChainState.genesis params) tips)
    (ran : Machine.run (ChainState.step params) (ChainState.genesis params) tips = some final) :
    store.coinsAt final.chain = some final.view := by
  have kept := Machine.run_invariant (ChainState.step params) (store.Records params)
    (fun state => state.Grounded params ∧ store.coinsAt state.chain = some state.view)
    (fun state tip next inv recorded stepped =>
      ⟨state.step_grounded params tip next inv.1 stepped,
        store.step_coinsAt params state tip next inv.1 inv.2 recorded stepped⟩)
    (ChainState.genesis params) final tips ⟨ChainState.genesis_grounded params, rfl⟩ records ran
  exact kept.2

end Connected

end BlockStore

end CryptoYen
