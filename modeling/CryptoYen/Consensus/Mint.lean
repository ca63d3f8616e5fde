import CryptoYen.Consensus.Chainstate

set_option autoImplicit false

namespace CryptoYen

def CChain.scheduledRewards (params : CChainParams) : CChain → Int
  | _ :: pprev :: ancestors =>
      getBlockValue params (pprev :: ancestors) pprev.nHeight +
        CChain.scheduledRewards params (pprev :: ancestors)
  | _ => 0

section

variable [TxHasher]

/-- Coinbases and coinstakes are the transactions that may pay out more than they take in. -/
def CTransaction.mints (tx : CTransaction) : Bool := tx.isCoinBase || tx.isCoinStake

def surplus (view : CCoinsView) (tx : CTransaction) : Int :=
  (tx.getValueOut).getD 0 - (view.getValueIn tx).getD 0

def sumInBlock (amount : CCoinsView → CTransaction → Int) (nHeight : Nat) :
    List CTransaction → CCoinsView → Int
  | [], _ => 0
  | tx :: rest, view =>
      amount view tx +
        match view.updateCoins tx nHeight with
        | some (next, _) => sumInBlock amount nHeight rest next
        | none => 0

def created (nHeight : Nat) (block : CBlock) (view : CCoinsView) : Int :=
  sumInBlock (fun view tx => if tx.mints then surplus view tx else 0) nHeight block.vtx view

def blockFees (nHeight : Nat) (block : CBlock) (view : CCoinsView) : Int :=
  sumInBlock (fun view tx => if tx.mints then 0 else -surplus view tx) nHeight block.vtx view

theorem connectTransactions_totals (ctx : BlockContext) (nHeight : Nat) (fScriptChecks : Bool)
    (vtx : List CTransaction) (state last : ConnectState)
    (connected : vtx.foldlM (connectTransaction ctx nHeight fScriptChecks) state = .ok last) :
    last.nFees = state.nFees +
        sumInBlock (fun view tx => if tx.mints then 0 else -surplus view tx) nHeight vtx
          state.view ∧
      last.nValueOut - last.nValueIn = state.nValueOut - state.nValueIn +
        sumInBlock surplus nHeight vtx state.view := by
  induction vtx generalizing state with
  | nil =>
      simp only [List.foldlM_nil, Except.pure_ok] at connected
      subst connected
      simp [sumInBlock]
  | cons tx rest ih =>
      rw [List.foldlM_cons, Except.bind_ok] at connected
      obtain ⟨next, first, others⟩ := connected
      obtain ⟨valueIn, valueOut, txundo, step⟩ :=
        connectTransaction_ok ctx nHeight fScriptChecks state next tx first
      have here : surplus state.view tx = valueOut - valueIn := by
        simp [surplus, step.value_in, step.value_out]
      obtain ⟨fees, totals⟩ := ih next others
      have first_fees := step.fees
      have first_in := step.total_in
      have first_out := step.total_out
      simp only [sumInBlock, step.updated, here, CTransaction.mints]
      simp only [CTransaction.mints] at fees
      constructor
      · rw [fees, first_fees]
        split <;> omega
      · omega

theorem sumInBlock_sub (first second : CCoinsView → CTransaction → Int) (nHeight : Nat)
    (vtx : List CTransaction) (view : CCoinsView) :
    sumInBlock (fun view tx => first view tx - second view tx) nHeight vtx view =
      sumInBlock first nHeight vtx view - sumInBlock second nHeight vtx view := by
  induction vtx generalizing view with
  | nil => rfl
  | cons tx rest ih =>
      simp only [sumInBlock]
      cases view.updateCoins tx nHeight with
      | none => simp
      | some updated =>
          dsimp only
          rw [ih]
          omega

theorem sumInBlock_surplus (nHeight : Nat) (block : CBlock) (view : CCoinsView) :
    sumInBlock surplus nHeight block.vtx view =
      created nHeight block view - blockFees nHeight block view := by
  rw [created, blockFees, ← sumInBlock_sub]
  congr 1
  funext view tx
  split <;> omega

theorem connectBlock_supply [BlockHasher] [MerkleHasher] (ctx : BlockContext) (block : CBlock)
    (pindex : ConnectIndex) (view : CCoinsView) (fJustCheck : Bool) (pprev : CBlockIndex)
    (state : ConnectState) (result : Connected)
    (connected : BlockConnected ctx block pindex view fJustCheck pprev state result) :
    result.nMoneySupply - pindex.pprev.nMoneySupply =
        created pindex.nHeight block view - blockFees pindex.nHeight block view ∧
      result.nExpectedMint = some (getBlockValue ctx.params ctx.chainActive pindex.pprev.height +
        if block.isProofOfWork then blockFees pindex.nHeight block view else 0) := by
  obtain ⟨supply, expected, _⟩ :=
    finishConnect_ok ctx pindex fJustCheck _ state result connected.finished
  obtain ⟨fees, totals⟩ := connectTransactions_totals _ _ _ _ _ _ connected.run
  have parent : pindex.pprev.height = pprev.nHeight := by
    have found := connected.parent
    cases chain : pindex.pprev with
    | nil => simp [chain] at found
    | cons pindexPrev ancestors =>
        rw [chain] at found
        cases found
        rfl
  have sum := sumInBlock_surplus pindex.nHeight block view
  simp only [ConnectState.start] at fees totals
  constructor
  · omega
  · rw [expected, expectedMint, parent, fees]
    simp [blockFees]

/-- The condition under which a block stays within the schedule: its coinbase and coinstakes create
no more than the reward and the fees, which count twice before the proof-of-stake period. -/
def WithinSchedule (ctx : BlockContext) (block : CBlock) (pindex : ConnectIndex)
    (view : CCoinsView) : Prop :=
  created pindex.nHeight block view ≤
    getBlockValue ctx.params ctx.chainActive pindex.pprev.height +
      blockFees pindex.nHeight block view +
      if block.isProofOfWork then blockFees pindex.nHeight block view else 0

def WithinReward (ctx : BlockContext) (block : CBlock) (pindex : ConnectIndex)
    (view : CCoinsView) : Prop :=
  created pindex.nHeight block view ≤
    getBlockValue ctx.params ctx.chainActive pindex.pprev.height +
      blockFees pindex.nHeight block view

namespace ChainState

variable [BlockHasher] [MerkleHasher] (params : CChainParams)

def TipWithinSchedule (state : ChainState) (tip : TipBlock) : Prop :=
  WithinSchedule (state.contextOf params tip) tip.block (state.nextIndex tip.block) state.view

def TipWithinReward (state : ChainState) (tip : TipBlock) : Prop :=
  WithinReward (state.contextOf params tip) tip.block (state.nextIndex tip.block) state.view

def expectedMints : ChainState → List TipBlock → Int
  | _, [] => 0
  | state, tip :: rest =>
      match state.connect params tip, state.step params tip with
      | .ok result, some next => result.nExpectedMint.getD 0 + expectedMints next rest
      | _, _ => 0

theorem step_supply (state next : ChainState) (tip : TipBlock) (grounded : state.Grounded params)
    (stepped : state.step params tip = some next) :
    ∃ result, state.connect params tip = .ok result ∧
      next.chain.nMoneySupply - state.chain.nMoneySupply =
        created state.nextHeight tip.block state.view -
          blockFees state.nextHeight tip.block state.view ∧
      result.nExpectedMint = some (getBlockValue params state.chain state.chain.height +
        if tip.block.isProofOfWork then blockFees state.nextHeight tip.block state.view else 0) := by
  obtain ⟨pprev, last, result, connected, blockConnected, rfl⟩ :=
    state.step_connected params tip next grounded stepped
  obtain ⟨supply, expected⟩ := connectBlock_supply _ _ _ _ _ _ _ _ blockConnected
  exact ⟨result, connected, supply, expected⟩

theorem run_supply_le_expected (tips : List TipBlock) (state final : ChainState)
    (grounded : state.Grounded params)
    (within : Machine.Along (TipWithinSchedule params) (step params) state tips)
    (ran : Machine.run (step params) state tips = some final) :
    final.chain.nMoneySupply ≤ state.chain.nMoneySupply + expectedMints params state tips := by
  induction tips generalizing state with
  | nil =>
      cases ran
      simp [expectedMints]
  | cons tip rest ih =>
      obtain ⟨next, stepped, rest_ran⟩ := Option.bind_eq_some_iff.mp ran
      obtain ⟨result, connected, supply, expected⟩ :=
        step_supply params state next tip grounded stepped
      have later := ih next (state.step_grounded params tip next grounded stepped)
        (within.2 next stepped) rest_ran
      have here := within.1
      simp only [TipWithinSchedule, WithinSchedule, contextOf, nextIndex] at here
      simp only [expectedMints, connected, stepped, expected, Option.getD_some]
      omega

theorem step_scheduled (state next : ChainState) (tip : TipBlock)
    (inv : state.Grounded params ∧
      state.chain.nMoneySupply ≤ CChain.scheduledRewards params state.chain)
    (within : TipWithinReward params state tip) (stepped : state.step params tip = some next) :
    next.Grounded params ∧
      next.chain.nMoneySupply ≤ CChain.scheduledRewards params next.chain := by
  obtain ⟨grounded, bound⟩ := inv
  obtain ⟨_, _, supply, _⟩ := step_supply params state next tip grounded stepped
  refine ⟨state.step_grounded params tip next grounded stepped, ?_⟩
  obtain ⟨_, result, _, rfl⟩ := state.step_some params tip next stepped
  simp only [TipWithinReward, WithinReward, contextOf, nextIndex] at within
  obtain ⟨_, pindex, member, _⟩ := grounded
  cases chain : state.chain with
  | nil =>
      rw [chain] at member
      cases member
  | cons pprev ancestors =>
      simp only [chain, CChain.scheduledRewards, CChain.height] at within bound supply ⊢
      omega

end ChainState

end

namespace Overmint

@[reducible] def constantHasher : TxHasher := ⟨fun _ => 7⟩

def params : CChainParams := CChainParams.mainParams

def block (nValue : Int) : CBlock where
  nVersion := 2
  hashPrevBlock := BitVec.ofNat 256 params.genesis.nTime
  hashMerkleRoot := 7
  nTime := 1613150300
  nBits := 0x1e0fffff
  nNonce := 0
  vtx := [⟨1, [⟨COutPoint.null, [OP_1, OP_1], 0xffffffff⟩], [⟨nValue, [OP_1]⟩], 0⟩]
  vchBlockSig := []

def tip (nValue : Int) : TipBlock := ⟨downloadingNode params, block nValue, false⟩

def genesis : ChainState := @ChainState.genesis timeHasher params

def connected (nValue : Int) : Except Failure Connected :=
  @ChainState.connect constantHasher timeHasher leftHasher params genesis (tip nValue)

end Overmint

end CryptoYen
