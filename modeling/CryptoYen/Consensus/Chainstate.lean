import CryptoYen.Consensus.Connect
import CryptoYen.Library.Machine

set_option autoImplicit false

namespace CryptoYen

structure ChainState where
  chain : CChain
  view : CCoinsView

structure TipBlock where
  ctx : BlockContext
  block : CBlock
  fAlreadyChecked : Bool

def downloadingNode (params : CChainParams) : BlockContext where
  params := params
  chainActive := []
  mapBlockIndex := fun _ => none
  mapLockedInputs := fun _ => none
  nAdjustedTime := 1700000000
  fInitialBlockDownload := true
  nMaxReorgDepth := params.nMaxReorganizationDepth
  nScriptCheckThreads := 0
  verifyScript := fun _ _ _ _ => none
  fCheckpointsEnabled := true
  fMasternodeSynced := false
  isTransactionValid := fun _ _ => true
  writeUndo := pure ()

-- Stand-ins for the hash functions that tell a few blocks and transactions apart.
@[reducible] def timeHasher : BlockHasher := ⟨fun header => BitVec.ofNat 256 header.nTime⟩
@[reducible] def outputHasher : TxHasher :=
  ⟨fun tx => BitVec.ofInt 256 (tx.vout.map CTxOut.nValue).sum⟩
@[reducible] def leftHasher : MerkleHasher := ⟨fun left _ => left⟩

variable [TxHasher] [BlockHasher] [MerkleHasher]

def CBlockHeader.indexEntry (header : CBlockHeader) (nHeight : Nat) (nMoneySupply : Int) :
    CBlockIndex :=
  ⟨header.getHash, nHeight, header.nVersion, header.nTime, header.nBits, nMoneySupply⟩

namespace ChainState

variable (params : CChainParams) (state : ChainState)

/-- The state after the genesis block, whose coinbase is not written to the coins. -/
def genesis : ChainState :=
  ⟨[params.genesis.indexEntry 0 0], CCoinsView.empty params.hashGenesisBlock⟩

theorem connect_genesis (ctx : BlockContext) (block : CBlock) (fAlreadyChecked : Bool)
    (result : Connected) (isGenesis : block.getHash = ctx.params.hashGenesisBlock)
    (connected : connectBlock ctx block ⟨some block.getHash, 0, 0, []⟩ (CCoinsView.empty 0) false
      fAlreadyChecked = .ok result) :
    result.view = (genesis ctx.params).view ∧ result.nMoneySupply = 0 := by
  obtain ⟨_, _, outcome⟩ := connectBlock_ok _ _ _ _ _ _ _ connected
  rcases outcome with first | other
  · obtain ⟨_, first⟩ := first
    simp only [connectGenesis, Except.bind_ok, assertion_ok, Option.some.injEq,
      Except.pure_ok] at first
    obtain ⟨_, rfl, rfl⟩ := first
    exact ⟨by rw [isGenesis]; rfl, rfl⟩
  · exact absurd isGenesis other.1

def contextOf (tip : TipBlock) : BlockContext :=
  { tip.ctx with params := params, chainActive := state.chain }

def nextHeight : Nat := (state.chain.height + 1).toNat

def nextIndex (block : CBlock) : ConnectIndex :=
  ⟨some block.getHash, state.nextHeight, 0, state.chain⟩

def connect (tip : TipBlock) : Except Failure Connected :=
  connectBlock (state.contextOf params tip) tip.block (state.nextIndex tip.block) state.view false
    tip.fAlreadyChecked

-- Every hash has a single index entry, and heights are ints.
def canExtend (block : CBlock) : Bool :=
  !(state.chain.any fun pindex => pindex.phashBlock == block.getHash) &&
    state.nextHeight < 2 ^ 31

def step (tip : TipBlock) : Option ChainState :=
  if state.canExtend tip.block then
    match state.connect params tip with
    | .ok result =>
        some ⟨tip.block.indexEntry state.nextHeight result.nMoneySupply :: state.chain, result.view⟩
    | .error _ => none
  else none

theorem step_some (tip : TipBlock) (next : ChainState)
    (stepped : state.step params tip = some next) :
    state.canExtend tip.block = true ∧
      ∃ result, state.connect params tip = .ok result ∧
        next = ⟨tip.block.indexEntry state.nextHeight result.nMoneySupply :: state.chain,
          result.view⟩ := by
  simp only [step] at stepped
  split at stepped
  next extends_chain =>
    split at stepped
    next result connected =>
      cases stepped
      exact ⟨extends_chain, result, connected, rfl⟩
    next => cases stepped
  next => cases stepped

structure Grounded : Prop where
  linked : state.chain.Linked
  root : ∃ pindex ∈ state.chain, pindex.phashBlock = params.hashGenesisBlock

omit [TxHasher] [MerkleHasher] in
theorem genesis_grounded : (genesis params).Grounded params := by
  constructor
  · simp [genesis, CChain.Linked, CBlockHeader.indexEntry]
  · exact ⟨_, List.mem_singleton.mpr rfl, rfl⟩

omit [TxHasher] [MerkleHasher] in
theorem Grounded.nextHeight_eq {params : CChainParams} {state : ChainState}
    (grounded : state.Grounded params) : state.nextHeight = state.chain.length := by
  obtain ⟨linked, _, member, _⟩ := grounded
  unfold nextHeight
  cases chain : state.chain with
  | nil =>
      rw [chain] at member
      cases member
  | cons pindex ancestors =>
      rw [chain] at linked
      simp [CChain.height, linked.1]

omit [TxHasher] [MerkleHasher] in
theorem Grounded.not_genesis {params : CChainParams} {state : ChainState}
    (grounded : state.Grounded params) (block : CBlock)
    (extends_chain : state.canExtend block = true) :
    block.getHash ≠ params.hashGenesisBlock := by
  obtain ⟨_, pindex, member, hash⟩ := grounded
  intro same
  simp only [canExtend, Bool.and_eq_true, Bool.not_eq_true', List.any_eq_false] at extends_chain
  have apart := extends_chain.1 pindex member
  simp [hash, same] at apart

theorem step_grounded (tip : TipBlock) (next : ChainState) (grounded : state.Grounded params)
    (stepped : state.step params tip = some next) : next.Grounded params := by
  obtain ⟨_, result, _, rfl⟩ := state.step_some params tip next stepped
  have height := grounded.nextHeight_eq
  obtain ⟨linked, pindex, member, hash⟩ := grounded
  constructor
  · exact ⟨height, linked⟩
  · exact ⟨pindex, List.mem_cons_of_mem _ member, hash⟩

theorem run_grounded (tips : List TipBlock) (final : ChainState)
    (ran : Machine.run (step params) (genesis params) tips = some final) :
    final.Grounded params :=
  Machine.run_invariant (step params) (fun _ _ => True) (Grounded params)
    (fun state tip next grounded _ stepped => state.step_grounded params tip next grounded stepped)
    (genesis params) final tips (genesis_grounded params) (Machine.along_true _ _ _) ran

theorem step_connected (tip : TipBlock) (next : ChainState) (grounded : state.Grounded params)
    (stepped : state.step params tip = some next) :
    ∃ pprev last result,
      state.connect params tip = .ok result ∧
      BlockConnected (state.contextOf params tip) tip.block (state.nextIndex tip.block) state.view
        false pprev last result ∧
      next = ⟨tip.block.indexEntry state.nextHeight result.nMoneySupply :: state.chain,
        result.view⟩ := by
  obtain ⟨extends_chain, result, connected, rfl⟩ := state.step_some params tip next stepped
  obtain ⟨_, _, outcome⟩ := connectBlock_ok _ _ _ _ _ _ _ connected
  cases outcome with
  | inl isGenesis => exact absurd isGenesis.1 (grounded.not_genesis tip.block extends_chain)
  | inr other =>
      obtain ⟨_, pprev, last, blockConnected⟩ := other
      exact ⟨pprev, last, result, connected, blockConnected, rfl⟩

end ChainState

end CryptoYen
