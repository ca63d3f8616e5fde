import CryptoYen.Consensus.AcceptBlock
import CryptoYen.Consensus.Chainstate

set_option autoImplicit false

namespace CryptoYen

section

variable [TxHasher] [BlockHasher] [MerkleHasher] [KernelHasher] (params : CChainParams)

/-- The call of AcceptBlock that stored a block whose parent is the tip of the chain. -/
structure AcceptedIn (ctx : AcceptContext) (state : ChainState) (block : CBlock) : Prop where
  network : ctx.params = params
  parent : ∃ pindexPrev, ctx.mapBlockIndex block.hashPrevBlock = some pindexPrev ∧
    pindexPrev.map CBlockIndex.phashBlock = state.chain.map CBlockIndex.phashBlock
  stored : ∃ fAlreadyChecked, acceptBlock ctx block fAlreadyChecked = .ok .stored

/-- Up to the last proof-of-work height a block is proof of work, above it a proof of stake whose
kernel was checked when the block was accepted. -/
structure InPhase (state : ChainState) (block : CBlock) : Prop where
  work : state.nextHeight ≤ params.nLastPOWBlock → block.isProofOfWork = true
  stake : params.nLastPOWBlock < state.nextHeight → block.isProofOfStake = true ∧
    ∃ ctx, AcceptedIn params ctx state block ∧
      ∃ hashProofOfStake, checkProofOfStake ctx.proof block = .ok hashProofOfStake

/-- The checks of ProcessNewBlock on a block whose parent is the tip of the chain, made whenever the
block arrived. -/
structure PassedChecks (state : ChainState) (tip : TipBlock) : Prop where
  checked : ∃ ctx : BlockContext, ctx.params = params ∧ checkBlock ctx tip.block true true = .ok ()
  accepted : ∃ ctx, AcceptedIn params ctx state tip.block

omit [KernelHasher] in
theorem connected_proofPeriod (state next : ChainState) (tip : TipBlock)
    (grounded : state.Grounded params) (stepped : state.step params tip = some next)
    (early : state.nextHeight ≤ params.nLastPOWBlock) : tip.block.isProofOfWork = true := by
  obtain ⟨_, _, _, _, blockConnected, _⟩ := state.step_connected params tip next grounded stepped
  have period := blockConnected.proofPeriod
  simp only [checkProofPeriod, require_ok, ChainState.contextOf, ChainState.nextIndex,
    Bool.not_eq_true', Bool.and_eq_false_iff] at period
  rw [CBlock.isProofOfWork_iff]
  rcases period with late | work
  · exact absurd early (of_decide_eq_false late)
  · exact work

/-- ConnectBlock rejects early proofs of stake and AcceptBlock wrong ones; nothing rejects a late
proof of work. So a connected block is in its phase exactly if it is not one. -/
theorem inPhase_iff (before : List TipBlock) (tip : TipBlock) (state next : ChainState)
    (passed : Machine.Along (PassedChecks params) (ChainState.step params)
      (ChainState.genesis params) (before ++ [tip]))
    (ran : Machine.run (ChainState.step params) (ChainState.genesis params) before = some state)
    (stepped : state.step params tip = some next) :
    InPhase params state tip.block ↔
      ¬ (params.nLastPOWBlock < state.nextHeight ∧ tip.block.isProofOfWork = true) := by
  have grounded := ChainState.run_grounded params before state ran
  constructor
  · intro phase late
    have stakes := (phase.stake late.1).1
    have works := late.2
    rw [CBlock.isProofOfWork_iff, stakes] at works
    cases works
  · intro notLateWork
    constructor
    · exact connected_proofPeriod params state next tip grounded stepped
    · intro late
      have stakes : tip.block.isProofOfStake = true := by
        by_contra works
        apply notLateWork
        exact ⟨late, (CBlock.isProofOfWork_iff tip.block).mpr (by simpa using works)⟩
      rw [Machine.along_append] at passed
      obtain ⟨ctx, accepted⟩ := (passed.2 state ran).1.accepted
      obtain ⟨fAlreadyChecked, stored⟩ := accepted.stored
      have proof := acceptBlock_proof ctx tip.block fAlreadyChecked stored stakes
      exact ⟨stakes, ctx, accepted, proof⟩

end

namespace WorkChain

def params : CChainParams := CChainParams.testNetParams

def nTime (nHeight : Nat) : Nat := 1536062401 + 120 * nHeight

def hash (nHeight : Nat) : Uint256 := BitVec.ofNat 256 (nTime nHeight)

def block (nHeight : Nat) : CBlock where
  nVersion := 2
  hashPrevBlock := hash (nHeight - 1)
  hashMerkleRoot := 1000
  nTime := nTime nHeight
  nBits := 0x1e0fffff
  nNonce := 0
  vtx := [⟨1, [⟨COutPoint.null, CScript.pushInt64 nHeight ++ [0], 0xffffffff⟩],
    [⟨1000, [OP_1]⟩], 0⟩]
  vchBlockSig := []

def tip (nHeight : Nat) : TipBlock := ⟨downloadingNode params, block nHeight, false⟩

def chain : Nat → CChain
  | 0 => [⟨hash 0, 0, 1, nTime 0, 0x1e0fffff, 0⟩]
  | nHeight + 1 => ⟨hash (nHeight + 1), nHeight + 1, 2, nTime (nHeight + 1), 0x1e0fffff, 0⟩ ::
      chain nHeight

def genesis : ChainState := @ChainState.genesis timeHasher params

def step : ChainState → TipBlock → Option ChainState :=
  @ChainState.step outputHasher timeHasher leftHasher params

def acceptContext (nHeight : Nat) : AcceptContext :=
  { downloadingNode params with
    chainActive := chain nHeight
    mapBlockIndex := fun hashBlock =>
      if hashBlock = hash nHeight then some (chain nHeight) else none
    getTransaction := fun _ => none
    getKernelStakeModifier := fun _ => none
    readBlockFromDisk := fun _ => none
    pcoinsTip := CCoinsView.empty (hash nHeight)
    fFailed := fun _ => false
    fHaveData := fun _ => false
    reconsiders := fun _ => false
    writeBlock := pure () }

@[reducible] def noKernelHasher : KernelHasher := ⟨fun _ _ _ _ => 0⟩

def accept (nHeight : Nat) : Except Failure Accepted :=
  @acceptBlock outputHasher timeHasher leftHasher noKernelHasher (acceptContext nHeight)
    (block (nHeight + 1)) false

def tips (nHeight count : Nat) : List TipBlock := (List.range' (nHeight + 1) count).map tip

theorem all_accepted : ∀ nHeight < 121, accept nHeight = .ok .stored := by
  decide +kernel

theorem all_checked : ∀ nHeight < 121,
    @checkBlock outputHasher timeHasher leftHasher (downloadingNode params) (block (nHeight + 1))
      true true = .ok () := by
  decide +kernel

theorem connects : (Machine.run step genesis (tips 0 121)).isSome = true := by
  decide +kernel

def Follows (state : ChainState) (nHeight : Nat) : Prop :=
  state.chain.map CBlockIndex.phashBlock = (chain nHeight).map CBlockIndex.phashBlock

theorem tips_succ (nHeight count : Nat) :
    tips nHeight (count + 1) = tip (nHeight + 1) :: tips (nHeight + 1) count := by
  rw [tips, List.range'_succ, List.map_cons]
  rfl

theorem step_follows (state next : ChainState) (nHeight : Nat) (follows : Follows state nHeight)
    (stepped : step state (tip (nHeight + 1)) = some next) : Follows next (nHeight + 1) := by
  obtain ⟨_, result, _, rfl⟩ :=
    @ChainState.step_some outputHasher timeHasher leftHasher params state _ next stepped
  exact congrArg (hash (nHeight + 1) :: ·) follows

theorem run_follows (count nHeight : Nat) (state final : ChainState)
    (follows : Follows state nHeight)
    (ran : Machine.run step state (tips nHeight count) = some final) :
    Follows final (nHeight + count) := by
  induction count generalizing nHeight state with
  | zero =>
      cases ran
      exact follows
  | succ count ih =>
      rw [tips_succ] at ran
      obtain ⟨next, stepped, rest⟩ := Option.bind_eq_some_iff.mp ran
      have later := ih (nHeight + 1) next (step_follows state next nHeight follows stepped) rest
      rwa [Nat.add_right_comm] at later

theorem chain_length (nHeight : Nat) : (chain nHeight).length = nHeight + 1 := by
  induction nHeight with
  | zero => rfl
  | succ nHeight ih => rw [chain, List.length_cons, ih]

theorem nextHeight_eq (count : Nat) (state : ChainState)
    (ran : Machine.run step genesis (tips 0 count) = some state) :
    state.nextHeight = count + 1 := by
  have grounded := @ChainState.run_grounded outputHasher timeHasher leftHasher params
    (tips 0 count) state ran
  have length := congrArg List.length (run_follows count 0 genesis state rfl ran)
  rw [List.length_map, ← @ChainState.Grounded.nextHeight_eq timeHasher _ _ grounded,
    List.length_map, chain_length] at length
  omega

theorem passes (count nHeight : Nat) (state : ChainState) (follows : Follows state nHeight)
    (bound : nHeight + count ≤ 121) :
    Machine.Along
      (@PassedChecks outputHasher timeHasher leftHasher noKernelHasher params) step state
      (tips nHeight count) := by
  induction count generalizing nHeight state with
  | zero => trivial
  | succ count ih =>
      rw [tips_succ]
      constructor
      · apply @PassedChecks.mk outputHasher timeHasher leftHasher noKernelHasher
        · exact ⟨downloadingNode params, rfl, all_checked nHeight (by omega)⟩
        · refine ⟨acceptContext nHeight, ?_⟩
          apply @AcceptedIn.mk outputHasher timeHasher leftHasher noKernelHasher
          · rfl
          · exact ⟨chain nHeight, if_pos rfl, follows.symm⟩
          · exact ⟨false, all_accepted nHeight (by omega)⟩
      · intro next stepped
        exact ih (nHeight + 1) next (step_follows state next nHeight follows stepped) (by omega)

theorem tips_concat (count : Nat) : tips 0 (count + 1) = tips 0 count ++ [tip (count + 1)] := by
  simp only [tips, List.range'_concat, List.map_append, Nat.one_mul, Nat.zero_add, Nat.add_comm 1,
    List.map_cons, List.map_nil]

theorem last_step (count : Nat) (bound : count < 121)
    (connected : (Machine.run step genesis (tips 0 (count + 1))).isSome = true) :
    ∃ state next,
      Machine.Along (@PassedChecks outputHasher timeHasher leftHasher noKernelHasher params) step
        genesis (tips 0 count ++ [tip (count + 1)]) ∧
      Machine.run step genesis (tips 0 count) = some state ∧
      step state (tip (count + 1)) = some next := by
  have passed := passes (count + 1) 0 genesis rfl (by omega)
  obtain ⟨final, ran⟩ := Option.isSome_iff_exists.mp connected
  rw [tips_concat] at passed ran
  rw [Machine.run_append] at ran
  obtain ⟨state, first, last⟩ := Option.bind_eq_some_iff.mp ran
  obtain ⟨next, stepped, _⟩ := Option.bind_eq_some_iff.mp last
  exact ⟨state, next, passed, first, stepped⟩

end WorkChain

/-- On the test network a proof of work is accepted and connected at height 121. -/
theorem lateWork_connected :
    ∃ state next,
      Machine.Along (@PassedChecks outputHasher timeHasher leftHasher WorkChain.noKernelHasher
        WorkChain.params) WorkChain.step WorkChain.genesis
        (WorkChain.tips 0 120 ++ [WorkChain.tip 121]) ∧
      Machine.run WorkChain.step WorkChain.genesis (WorkChain.tips 0 120) = some state ∧
      WorkChain.step state (WorkChain.tip 121) = some next ∧
      ¬ @InPhase outputHasher timeHasher leftHasher WorkChain.noKernelHasher WorkChain.params state
        (WorkChain.tip 121).block := by
  obtain ⟨state, next, passed, first, stepped⟩ :=
    WorkChain.last_step 120 (by omega) WorkChain.connects
  refine ⟨state, next, passed, first, stepped, ?_⟩
  intro phase
  have height : WorkChain.params.nLastPOWBlock < state.nextHeight := by
    rw [WorkChain.nextHeight_eq 120 state first]
    decide
  have stakes := (@InPhase.stake outputHasher timeHasher leftHasher WorkChain.noKernelHasher _ _ _
    phase height).1
  cases stakes

/-- The block at the last height for proofs of work is in its phase. -/
theorem inPhase_lastWork :
    ∃ state, Machine.run WorkChain.step WorkChain.genesis (WorkChain.tips 0 119) = some state ∧
      @InPhase outputHasher timeHasher leftHasher WorkChain.noKernelHasher WorkChain.params state
        (WorkChain.tip 120).block := by
  obtain ⟨_, _, _, before, _⟩ := WorkChain.last_step 120 (by omega) WorkChain.connects
  obtain ⟨state, next, passed, first, stepped⟩ :=
    WorkChain.last_step 119 (by omega) (Option.isSome_of_eq_some before)
  refine ⟨state, first, ?_⟩
  apply (@inPhase_iff outputHasher timeHasher leftHasher WorkChain.noKernelHasher WorkChain.params
    (WorkChain.tips 0 119) (WorkChain.tip 120) state next passed first stepped).mpr
  intro late
  rw [WorkChain.nextHeight_eq 119 state first] at late
  exact absurd late.1 (by decide)

end CryptoYen
