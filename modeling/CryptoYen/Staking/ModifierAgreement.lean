import CryptoYen.Staking.Modifier

set_option autoImplicit false

namespace CryptoYen

variable [SelectionHasher]

section Selection

variable (mapBlockIndex other : Uint256 → Option StakeIndex)

theorem selectFrom_congr (fModifierV2 : Bool) (mapSelectedBlocks : List Uint256)
    (nSelectionIntervalStop : Int) (nStakeModifierPrev : BitVec 64) (candidates : List Candidate)
    (best : Option (Uint256 × StakeIndex))
    (agree : ∀ item ∈ candidates, mapBlockIndex item.2 = other item.2) :
    selectFrom mapBlockIndex fModifierV2 mapSelectedBlocks nSelectionIntervalStop
        nStakeModifierPrev candidates best =
      selectFrom other fModifierV2 mapSelectedBlocks nSelectionIntervalStop nStakeModifierPrev
        candidates best := by
  induction candidates generalizing best with
  | nil => rfl
  | cons item rest ih =>
      have rest_agree : ∀ item ∈ rest, mapBlockIndex item.2 = other item.2 :=
        fun item member => agree item (List.mem_cons_of_mem _ member)
      simp only [selectFrom, agree item List.mem_cons_self]
      cases other item.2 with
      | none => rfl
      | some pindex => simp only [ih _ rest_agree]

omit [SelectionHasher] in
theorem usesModifierV2_congr (params : CChainParams) (candidates : List Candidate)
    (agree : ∀ item ∈ candidates, mapBlockIndex item.2 = other item.2) :
    usesModifierV2 mapBlockIndex params candidates = usesModifierV2 other params candidates := by
  cases candidates with
  | nil => rfl
  | cons item rest => simp only [usesModifierV2, agree item List.mem_cons_self]

theorem selectBlockFromCandidates_congr (params : CChainParams) (candidates : List Candidate)
    (mapSelectedBlocks : List Uint256) (nSelectionIntervalStop : Int)
    (nStakeModifierPrev : BitVec 64)
    (agree : ∀ item ∈ candidates, mapBlockIndex item.2 = other item.2) :
    selectBlockFromCandidates mapBlockIndex params candidates mapSelectedBlocks
        nSelectionIntervalStop nStakeModifierPrev =
      selectBlockFromCandidates other params candidates mapSelectedBlocks nSelectionIntervalStop
        nStakeModifierPrev := by
  simp only [selectBlockFromCandidates, usesModifierV2_congr mapBlockIndex other params _ agree,
    selectFrom_congr mapBlockIndex other _ _ _ _ _ _ agree]

theorem selectRounds_congr (params : CChainParams) (candidates : List Candidate)
    (nStakeModifierPrev : BitVec 64) (rounds nRound : Nat) (nSelectionIntervalStop : Int)
    (mapSelectedBlocks : List Uint256) (nStakeModifierNew : BitVec 64)
    (agree : ∀ item ∈ candidates, mapBlockIndex item.2 = other item.2) :
    selectRounds mapBlockIndex params candidates nStakeModifierPrev rounds nRound
        nSelectionIntervalStop mapSelectedBlocks nStakeModifierNew =
      selectRounds other params candidates nStakeModifierPrev rounds nRound
        nSelectionIntervalStop mapSelectedBlocks nStakeModifierNew := by
  induction rounds generalizing nRound nSelectionIntervalStop mapSelectedBlocks
    nStakeModifierNew with
  | zero => rfl
  | succ rounds ih =>
      simp only [selectRounds,
        selectBlockFromCandidates_congr mapBlockIndex other params candidates _ _ _ agree, ih]

end Selection

section Processes

omit [SelectionHasher]

theorem StakeChain.mem_sortedByTimestamp (chain : StakeChain) (nSelectionIntervalStart : Int)
    (item : Candidate) (member : item ∈ chain.sortedByTimestamp nSelectionIntervalStart) :
    ∃ pindex ∈ chain, pindex.phashBlock = item.2 := by
  rw [sortedByTimestamp, List.mem_insertionSort, List.mem_reverse, List.mem_map] at member
  obtain ⟨pindex, taken, rfl⟩ := member
  exact ⟨pindex, (List.takeWhile_subset _) taken, rfl⟩

theorem ModifierProcess.mapBlockIndex_chain (process : ModifierProcess) (chain : StakeChain)
    (hash : Uint256) (indexed : ∃ pindex ∈ chain, pindex.phashBlock = hash) :
    process.mapBlockIndex chain hash = chain.find? fun pindex => pindex.phashBlock == hash := by
  obtain ⟨pindex, member, same⟩ := indexed
  have isFound : (chain.find? fun pindex => pindex.phashBlock == hash).isSome :=
    List.find?_isSome.mpr ⟨pindex, member, by simp [same]⟩
  rw [mapBlockIndex, List.find?_append, Option.or_of_isSome isFound]

end Processes

variable (process other : ModifierProcess) (params : CChainParams)

theorem computeNewModifier_agree (chain : StakeChain) (pindexPrev : StakeIndex)
    (nStakeModifier : BitVec 64) :
    computeNewModifier process params chain pindexPrev nStakeModifier =
      computeNewModifier other params chain pindexPrev nStakeModifier := by
  apply selectRounds_congr
  intro item member
  have indexed := chain.mem_sortedByTimestamp _ item member
  rw [process.mapBlockIndex_chain chain item.2 indexed,
    other.mapBlockIndex_chain chain item.2 indexed]

theorem addStakeIndex_agree (block : ChainBlock) (chain : StakeChain)
    (same : process.stakemodifier = other.stakemodifier) :
    addStakeIndex process params block chain = addStakeIndex other params block chain := by
  cases chain with
  | nil => rfl
  | cons pprev ancestors =>
      simp only [addStakeIndex, computeNextStakeModifier, same,
        computeNewModifier_agree process other params]

theorem indexBlocks_same (blocks : List ChainBlock)
    (same : process.stakemodifier = other.stakemodifier) :
    indexBlocks process params blocks = indexBlocks other params blocks := by
  induction blocks with
  | nil => rfl
  | cons block older ih =>
      rw [indexBlocks, indexBlocks, ih, addStakeIndex_agree process other params block _ same]

theorem indexBlocks_first (block genesis : ChainBlock) :
    ((indexBlocks process params [block, genesis]).head?.map StakeIndex.nStakeModifier) =
      some process.stakemodifier := rfl

theorem indexBlocks_literal (blocks : List ChainBlock) (longer : 2 ≤ blocks.length)
    (agree : indexBlocks process params blocks = indexBlocks other params blocks) :
    process.stakemodifier = other.stakemodifier := by
  induction blocks with
  | nil => simp at longer
  | cons block older ih =>
      match older with
      | [] => simp at longer
      | [genesis] =>
          have first := indexBlocks_first process params block genesis
          rw [agree, indexBlocks_first other params block genesis] at first
          exact (Option.some.inj first).symm
      | _ :: _ :: _ => exact ih (by simp) (List.cons.inj agree).2

/-- Two processes index a chain alike exactly when they hold the literal at the same address, or
no block lies above the genesis block. -/
theorem indexBlocks_agree_iff (blocks : List ChainBlock) :
    indexBlocks process params blocks = indexBlocks other params blocks ↔
      process.stakemodifier = other.stakemodifier ∨ blocks.length ≤ 1 := by
  constructor
  · intro agree
    by_cases short : blocks.length ≤ 1
    · exact Or.inr short
    · exact Or.inl (indexBlocks_literal process other params blocks (by omega) agree)
  · rintro (same | short)
    · exact indexBlocks_same process other params blocks same
    · match blocks with
      | [] => rfl
      | [_] => rfl
      | _ :: _ :: _ => simp at short

@[reducible] def sumSelectionHasher : SelectionHasher :=
  ⟨fun hashProof nStakeModifier => hashProof + nStakeModifier.setWidth 256⟩

def plainBlock (hash : Uint256) (nTime : Nat) : ChainBlock where
  phashBlock := hash
  nHeight := 0
  nVersion := 4
  nTime := nTime
  nBits := 0x1e0ffff0
  nMoneySupply := 0
  fProofOfStake := false

omit [SelectionHasher] in
theorem indexBlocks_disagree :
    @indexBlocks sumSelectionHasher ⟨0x55d0c0de1234, []⟩ CChainParams.mainParams
        [plainBlock 11 1700000060, plainBlock 10 1700000000] ≠
      @indexBlocks sumSelectionHasher ⟨0x563f10de1234, []⟩ CChainParams.mainParams
        [plainBlock 11 1700000060, plainBlock 10 1700000000] := by
  decide

end CryptoYen
