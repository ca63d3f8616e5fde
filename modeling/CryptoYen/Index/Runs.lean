import CryptoYen.Consensus.Chainstate
import CryptoYen.Consensus.CheckTransaction
import CryptoYen.Index.Header
import CryptoYen.Index.Receive
import CryptoYen.Index.Rounds
import CryptoYen.Library.Machine

set_option autoImplicit false

namespace CryptoYen

/-- What main.cpp does to its block tree under cs_main. ActivateBestChain lets go of the lock
between two passes of its loop, so each pass is an operation of its own. -/
inductive IndexOp
  | addToBlockIndex (block : CBlockHeader) (pindexNew : BlockPtr)
  | receivedBlockTransactions (nTx : Nat) (pindexNew : BlockPtr)
  | activateBestChainRound (verdicts : Verdicts)

namespace BlockTree

variable [BlockHasher] (params : CChainParams) (tree : BlockTree)

-- `new` returns an unused address, and every header but that of the genesis block has its parent.
def headerArrives (block : CBlockHeader) (pindexNew : BlockPtr) : Bool :=
  decide (pindexNew ∉ tree.mapBlockIndex) &&
    ((tree.find block.hashPrevBlock).isSome ||
      tree.mapBlockIndex.isEmpty && block.getHash == params.hashGenesisBlock)

-- AcceptBlock returns early for a block with its data, CheckBlock bounds the transactions.
def dataArrives (nTx : Nat) (pindexNew : BlockPtr) : Bool :=
  decide (pindexNew ∈ tree.mapBlockIndex) && !tree.haveData pindexNew &&
    decide (0 < nTx) && decide (nTx ≤ MAX_BLOCK_SIZE_CURRENT)

def step : IndexOp → Option BlockTree
  | .addToBlockIndex block pindexNew =>
      if tree.headerArrives params block pindexNew then some (tree.addToBlockIndex block pindexNew)
      else none
  | .receivedBlockTransactions nTx pindexNew =>
      if tree.dataArrives nTx pindexNew then some (tree.receivedBlockTransactions nTx pindexNew)
      else none
  | .activateBestChainRound verdicts =>
      (tree.activateBestChainRound params verdicts).map Prod.fst

/-- No counter wraps around, and no block fails after it was connected once. -/
def Steady : IndexOp → Prop
  | .addToBlockIndex block _ => tree.WorkFits block
  | .receivedBlockTransactions nTx pindexNew => tree.CountersFit nTx pindexNew
  | .activateBestChainRound verdicts => tree.Reconnects verdicts.connects

omit [BlockHasher] in
theorem empty_sound : empty.Sound := by
  have unknown (p : BlockPtr) : ¬ empty.Connected p := by
    rintro ⟨known, _⟩
    cases known
  constructor
  · constructor
    · intro p known
      cases known
    · intro p known
      cases known
    · intro p known
      cases known
    · intro p known
      cases known
    · intro p known
      cases known
    · intro pair member
      cases member
    · intro p member
      cases member
    · exact List.nodup_nil
    · intro p known
      cases known
  · constructor
    · exact List.isChain_nil
    · intro p member
      cases member
    · exact fun p here => absurd here (unknown p)
    · intro p known
      cases known
    · intro p known
      cases known
    · intro p member
      cases member

variable {params tree}

theorem step_sound (sound : tree.Sound) (op : IndexOp) (next : BlockTree)
    (steady : tree.Steady op) (stepped : tree.step params op = some next) : next.Sound := by
  cases op with
  | addToBlockIndex block pindexNew =>
      unfold step at stepped
      simp only at stepped
      split at stepped
      next arrives =>
        cases stepped
        simp only [headerArrives, Bool.and_eq_true, decide_eq_true_eq] at arrives
        exact addToBlockIndex_sound sound block pindexNew arrives.1 steady
      next => cases stepped
  | receivedBlockTransactions nTx pindexNew =>
      unfold step at stepped
      simp only at stepped
      split at stepped
      next arrives =>
        cases stepped
        simp only [dataArrives, Bool.and_eq_true, decide_eq_true_eq, Bool.not_eq_true'] at arrives
        obtain ⟨⟨⟨known, absent⟩, populated⟩, bounded⟩ := arrives
        have counted : nTx < 2 ^ 32 := by
          simp only [MAX_BLOCK_SIZE_CURRENT] at bounded
          omega
        exact receivedBlockTransactions_sound sound ⟨known, absent, populated, counted⟩ steady
      next => cases stepped
  | activateBestChainRound verdicts =>
      obtain ⟨⟨after, ended⟩, ran, same⟩ := Option.map_eq_some_iff.mp stepped
      cases same
      exact (activateBestChainRound_spec sound verdicts steady ended ran).1

/-- In a steady run CheckBlockIndex holds wherever ActivateBestChain returns. -/
theorem steady_run_checked (ops : List IndexOp) (tree next : BlockTree) (verdicts : Verdicts)
    (steady : Machine.Along Steady (step params) empty
      (ops ++ [.activateBestChainRound verdicts]))
    (ran : Machine.run (step params) empty ops = some tree)
    (returned : tree.activateBestChainRound params verdicts = some (next, .returned true)) :
    next.Checked := by
  rw [Machine.along_append] at steady
  have sound : tree.Sound := Machine.run_invariant (step params) Steady Sound
    (fun s op after here allowed stepped => step_sound here op after allowed stepped)
    empty tree ops empty_sound steady.1 ran
  have reconnects := (steady.2 tree ran).1
  exact (activateBestChainRound_spec sound verdicts reconnects (.returned true) returned).2 rfl

end BlockTree

namespace FailedReorganization

open BlockTree

def genesis : CBlockHeader := CChainParams.regTestParams.genesis

def child (nTime : Nat) (nBits : BitVec 32) : CBlockHeader where
  nVersion := 4
  hashPrevBlock := BitVec.ofNat 256 genesis.nTime
  hashMerkleRoot := 0
  nTime := nTime
  nBits := nBits
  nNonce := 0

def rejecting (blocks : List BlockPtr) : Verdicts :=
  ⟨fun _ => true, fun p => if p ∈ blocks then .invalid false else .success⟩

def accepting : Verdicts := rejecting []

-- The block with more work fails, so the old tip has to be connected again.
def ops : List IndexOp :=
  [.addToBlockIndex genesis 1,
    .receivedBlockTransactions 1 1,
    .activateBestChainRound accepting,
    .addToBlockIndex (child 1613150297 0x207fffff) 2,
    .receivedBlockTransactions 1 2,
    .activateBestChainRound accepting,
    .addToBlockIndex (child 1613150298 0x1d00ffff) 3,
    .receivedBlockTransactions 1 3,
    .activateBestChainRound (rejecting [3])]

abbrev step : BlockTree → IndexOp → Option BlockTree :=
  @BlockTree.step timeHasher CChainParams.regTestParams

def lastRound (labels : List IndexOp) (verdicts : Verdicts) : Option (BlockTree × RoundEnd) :=
  (Machine.run step empty labels).bind fun tree =>
    @activateBestChainRound tree CChainParams.regTestParams timeHasher verdicts

def strandedOps : List IndexOp := ops ++ [.activateBestChainRound (rejecting [2])]

theorem stranded_at_genesis :
    (lastRound strandedOps accepting).map (fun (tree, ended) =>
      (ended, tree.mapBlockIndex, tree.chainActive, tree.setBlockIndexCandidates, tree.entry 1)) =
    some (.returned true, [3, 2, 1], [1], [],
      ⟨1613150237, none, 0, 2, 1, 1, 1, ⟨3, true, false, false, false⟩⟩) := by
  decide +kernel

end FailedReorganization

open FailedReorganization BlockTree

/-- The old tip fails on its return: the tip falls to the genesis block, which Prune erased. -/
theorem failedReorganization_unchecked :
    ∃ next, lastRound strandedOps accepting = some (next, .returned true) ∧ ¬ next.Checked := by
  obtain ⟨⟨next, ended⟩, ran, facts⟩ := Option.map_eq_some_iff.mp stranded_at_genesis
  simp only [Prod.mk.injEq] at facts
  obtain ⟨rfl, index, active, candidates, entry⟩ := facts
  refine ⟨next, ran, fun checked => ?_⟩
  have root : next.pprev 1 = none := by rw [pprev, entry]
  have valid : ¬ next.Failed 1 := by
    rw [failed_iff, entry]
    rintro (failed | ⟨q, above, _⟩)
    · cases failed
    · rw [root] at above
      cases above
  have good : next.worseThanTip 1 = false := by
    simp only [worseThanTip, tip, active, List.head?_cons]
    exact (next.worse_ranks.false_iff 1 1).mpr (le_refl _)
  have offered := checked.offered 1 (by simp [index]) (by simp [linked, entry]) valid good
  rw [candidates] at offered
  cases offered

namespace FailedReorganization

def apply (tree : BlockTree) (op : IndexOp) : BlockTree := (step tree op).getD tree

theorem steady_cons (tree : BlockTree) (op : IndexOp) (rest : List IndexOp)
    (taken : (step tree op).isSome = true) (here : tree.Steady op)
    (later : Machine.Along Steady step (apply tree op) rest) :
    Machine.Along Steady step tree (op :: rest) := by
  obtain ⟨next, stepped⟩ := Option.isSome_iff_exists.mp taken
  apply Machine.along_cons Steady step tree next op rest stepped here
  simpa [apply, stepped] using later

theorem workFits_of (tree : BlockTree) (block : CBlockHeader)
    (fits : ∀ q ∈ tree.mapBlockIndex,
      (tree.entry q).nChainWork.toNat + (getBlockProof block.nBits).toNat < 2 ^ 256) :
    tree.WorkFits block :=
  fun q found => fits q (find_known block.hashPrevBlock q found)

theorem rejecting_reconnects (tree : BlockTree) (blocks : List BlockPtr)
    (never : ∀ p ∈ blocks, (tree.entry p).nStatus.haveUndo = false) :
    tree.Reconnects (rejecting blocks).connects := by
  intro p undo invalid
  by_cases member : p ∈ blocks
  · rw [never p member] at undo
    cases undo
  · simp [rejecting, member] at invalid

theorem countersFit_of (tree : BlockTree) (nTx : Nat) (p : BlockPtr)
    (chains : ∀ q ∈ (tree.storeData p nTx).mapBlockIndex,
      (tree.storeData p nTx).chainTotal q < 2 ^ 32)
    (sequence : tree.nBlockSequenceId + tree.mapBlocksUnlinked.length + 1 < 2 ^ 32) :
    tree.CountersFit nTx p :=
  ⟨chains, sequence⟩

end FailedReorganization

theorem steady_run_checked_reorganization :
    ∃ next, lastRound ops accepting = some (next, .returned true) ∧ next.Checked := by
  have steady : Machine.Along Steady step empty (ops ++ [.activateBestChainRound accepting]) := by
    refine steady_cons _ _ _ (by decide +kernel) (workFits_of _ _ (by decide +kernel)) ?_
    refine steady_cons _ _ _ (by decide +kernel)
      (countersFit_of _ _ _ (by decide +kernel) (by decide +kernel)) ?_
    refine steady_cons _ _ _ (by decide +kernel) (rejecting_reconnects _ _ (by decide +kernel)) ?_
    refine steady_cons _ _ _ (by decide +kernel) (workFits_of _ _ (by decide +kernel)) ?_
    refine steady_cons _ _ _ (by decide +kernel)
      (countersFit_of _ _ _ (by decide +kernel) (by decide +kernel)) ?_
    refine steady_cons _ _ _ (by decide +kernel) (rejecting_reconnects _ _ (by decide +kernel)) ?_
    refine steady_cons _ _ _ (by decide +kernel) (workFits_of _ _ (by decide +kernel)) ?_
    refine steady_cons _ _ _ (by decide +kernel)
      (countersFit_of _ _ _ (by decide +kernel) (by decide +kernel)) ?_
    refine steady_cons _ _ _ (by decide +kernel) (rejecting_reconnects _ _ (by decide +kernel)) ?_
    refine steady_cons _ _ _ (by decide +kernel) (rejecting_reconnects _ _ (by decide +kernel)) ?_
    trivial
  have settles : (lastRound ops accepting).map Prod.snd = some (.returned true) := by
    decide +kernel
  obtain ⟨⟨next, ended⟩, ran, rfl⟩ := Option.map_eq_some_iff.mp settles
  obtain ⟨tree, before, returned⟩ := Option.bind_eq_some_iff.mp ran
  exact ⟨next, ran, @steady_run_checked timeHasher CChainParams.regTestParams ops tree next
    accepting steady before returned⟩

end CryptoYen
