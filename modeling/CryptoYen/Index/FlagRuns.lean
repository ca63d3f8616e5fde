import CryptoYen.Index.Readmit
import CryptoYen.Index.Settled
import CryptoYen.Index.Withdraw

set_option autoImplicit false

namespace CryptoYen

namespace BlockTree

variable {tree next : BlockTree}

/-- What CheckBlockIndex asserts about failure bits, and about the candidates that nothing failed
above. -/
structure Reversible (tree : BlockTree) : Prop where
  unmarked : ∀ p ∈ tree.mapBlockIndex, ¬ tree.Failed p → (tree.entry p).nStatus.failed = false
  offered : ∀ p ∈ tree.mapBlockIndex, tree.linked p = true → ¬ tree.Failed p →
    tree.worseThanTip p = false → p ∈ tree.setBlockIndexCandidates

/-- The calls that main.cpp can take back: every tip is disconnected, what was connected once
connects again, and ReconsiderBlock leaves no cousin behind. -/
def Reverts (tree : BlockTree) : FlagOp → Prop
  | .invalidateBlock pindex disconnects => tree.Disconnects pindex disconnects
  | .reconsiderBlock pindex => tree.Reconsiders pindex
  | .activateBestChainRound verdicts => tree.Retries verdicts.connects

variable [BlockHasher] {params : CChainParams}

theorem flagStep_flagged (flagged : ∃ veil, Flagged veil tree) (op : FlagOp) (next : BlockTree)
    (reverts : tree.Reverts op) (stepped : tree.flagStep params op = some next) :
    ∃ veil, Flagged veil next := by
  obtain ⟨veil, flagged⟩ := flagged
  cases op with
  | invalidateBlock pindex disconnects =>
      unfold flagStep at stepped
      simp only at stepped
      split at stepped
      next known =>
        obtain ⟨⟨after, done⟩, ran, same⟩ := Option.map_eq_some_iff.mp stepped
        cases same
        have path : tree.chainActive.IsChain fun p q => tree.pprev p = some q :=
          flagged.sound.selection.path
        obtain ⟨removed, invalidated⟩ := invalidateBlock_spec path
          (fun p active a ancestor =>
            (flagged.leveled.mem_ancestry_iff (flagged.active_connected active).1 a).mpr ancestor)
          reverts ran
        exact ⟨_, invalidated.flagged flagged known⟩
      next => cases stepped
  | reconsiderBlock pindex =>
      unfold flagStep at stepped
      simp only at stepped
      split at stepped
      next known =>
        have reconsidered := reconsiderBlock_spec flagged.leveled stepped
        exact ⟨_, reconsidered.flagged flagged reverts known⟩
      next => cases stepped
  | activateBestChainRound verdicts =>
      obtain ⟨⟨after, ended⟩, ran, same⟩ := Option.map_eq_some_iff.mp stepped
      cases same
      exact ⟨veil, (flagged.round verdicts reverts ended ran).1⟩

omit [BlockHasher] in
theorem Flagged.reversible {veil : Veil} (flagged : Flagged veil tree)
    (checked : (tree.veiled veil).Checked) : tree.Reversible := by
  constructor
  · intro p known valid
    by_contra marked
    rw [Bool.not_eq_false] at marked
    exact valid (flagged.failed_of_mark known marked)
  · intro p known linked valid good
    exact checked.offered p known linked (fun failed => valid (veiled_failed p failed)) good

/-- Wherever ActivateBestChain returns, invalidating and reconsidering left nothing behind. -/
theorem flag_run_reversible (settled : tree.Settled) (ops : List FlagOp) (middle : BlockTree)
    (verdicts : Verdicts)
    (reverts : Machine.Along Reverts (flagStep params) tree
      (ops ++ [.activateBestChainRound verdicts]))
    (ran : Machine.run (flagStep params) tree ops = some middle)
    (returned : middle.activateBestChainRound params verdicts = some (next, .returned true)) :
    next.Reversible := by
  rw [Machine.along_append] at reverts
  obtain ⟨veil, flagged⟩ := Machine.run_invariant (flagStep params) Reverts
    (fun tree => ∃ veil, Flagged veil tree)
    (fun _ op next here allowed stepped => flagStep_flagged here op next allowed stepped)
    tree middle ops ⟨.clear, settled.flagged⟩ reverts.1 ran
  have retries := (reverts.2 middle ran).1
  obtain ⟨after, checked⟩ := flagged.round verdicts retries (.returned true) returned
  exact after.reversible (checked rfl)

end BlockTree

namespace Cousin

open BlockTree FailedReorganization

def childOf (hashPrevBlock : Nat) (nTime : Nat) : CBlockHeader :=
  { child nTime 0x207fffff with hashPrevBlock := BitVec.ofNat 256 hashPrevBlock }

-- The block 2 on the genesis block has two children, of which 3 came first and is the tip.
def ops : List IndexOp :=
  [.addToBlockIndex genesis 1,
    .receivedBlockTransactions 1 1,
    .activateBestChainRound accepting,
    .addToBlockIndex (childOf genesis.nTime 1613150297) 2,
    .receivedBlockTransactions 1 2,
    .addToBlockIndex (childOf 1613150297 1613150298) 3,
    .receivedBlockTransactions 1 3,
    .addToBlockIndex (childOf 1613150297 1613150299) 4,
    .receivedBlockTransactions 1 4,
    .activateBestChainRound accepting,
    .activateBestChainRound accepting]

def start : BlockTree := (Machine.run FailedReorganization.step empty ops).getD empty

abbrev flagStep : BlockTree → FlagOp → Option BlockTree :=
  @BlockTree.flagStep timeHasher CChainParams.regTestParams

def disconnecting : BlockPtr → Bool := fun _ => true

def flagOps (pindex : BlockPtr) : List FlagOp :=
  [.invalidateBlock 2 disconnecting,
    .activateBestChainRound accepting,
    .reconsiderBlock pindex,
    .activateBestChainRound accepting]

def activated (flagOps : List FlagOp) : Option (BlockTree × RoundEnd) :=
  (Machine.run flagStep start flagOps).bind fun tree =>
    @activateBestChainRound tree CChainParams.regTestParams timeHasher accepting

theorem admits_cons (tree : BlockTree) (op : IndexOp) (rest : List IndexOp)
    (taken : (FailedReorganization.step tree op).isSome = true) (here : tree.Steady op)
    (weighs : ∀ nTx p, op = .receivedBlockTransactions nTx p → tree.Weighs p)
    (later : Machine.Along Admits FailedReorganization.step (apply tree op) rest) :
    Machine.Along Admits FailedReorganization.step tree (op :: rest) := by
  obtain ⟨next, stepped⟩ := Option.isSome_iff_exists.mp taken
  apply Machine.along_cons Admits FailedReorganization.step tree next op rest stepped
  · exact ⟨here, weighs⟩
  · simpa [apply, stepped] using later

theorem header_cons (tree : BlockTree) (block : CBlockHeader) (p : BlockPtr) (rest : List IndexOp)
    (taken : (FailedReorganization.step tree (.addToBlockIndex block p)).isSome = true)
    (fits : ∀ q ∈ tree.mapBlockIndex,
      (tree.entry q).nChainWork.toNat + (getBlockProof block.nBits).toNat < 2 ^ 256)
    (later : Machine.Along Admits FailedReorganization.step
      (apply tree (.addToBlockIndex block p)) rest) :
    Machine.Along Admits FailedReorganization.step tree (.addToBlockIndex block p :: rest) :=
  admits_cons tree _ rest taken (workFits_of tree block fits) (fun _ _ same => by cases same) later

theorem data_cons (tree : BlockTree) (nTx : Nat) (p : BlockPtr) (rest : List IndexOp)
    (taken : (FailedReorganization.step tree (.receivedBlockTransactions nTx p)).isSome = true)
    (chains : ∀ q ∈ (tree.storeData p nTx).mapBlockIndex,
      (tree.storeData p nTx).chainTotal q < 2 ^ 32)
    (sequence : tree.nBlockSequenceId + tree.mapBlocksUnlinked.length + 1 < 2 ^ 32)
    (weighs : ∀ q ∈ tree.pprev p, (tree.entry q).nChainWork < (tree.entry p).nChainWork)
    (later : Machine.Along Admits FailedReorganization.step
      (apply tree (.receivedBlockTransactions nTx p)) rest) :
    Machine.Along Admits FailedReorganization.step tree (.receivedBlockTransactions nTx p :: rest) := by
  refine admits_cons tree _ rest taken (countersFit_of tree nTx p chains sequence) ?_ later
  rintro _ _ ⟨rfl, rfl⟩
  exact weighs

theorem round_cons (tree : BlockTree) (rest : List IndexOp)
    (taken : (FailedReorganization.step tree (.activateBestChainRound accepting)).isSome = true)
    (later : Machine.Along Admits FailedReorganization.step
      (apply tree (.activateBestChainRound accepting)) rest) :
    Machine.Along Admits FailedReorganization.step tree
      (.activateBestChainRound accepting :: rest) :=
  admits_cons tree _ rest taken
    (rejecting_reconnects tree [] (fun _ member => by cases member)) (fun _ _ same => by cases same)
    later

theorem start_settled : start.Settled := by
  have built : (Machine.run FailedReorganization.step empty ops).isSome = true := by
    decide +kernel
  obtain ⟨final, ran⟩ := Option.isSome_iff_exists.mp built
  have same : start = final := by rw [start, ran, Option.getD_some]
  rw [same]
  refine @run_settled timeHasher CChainParams.regTestParams ops final ?_ ran
  refine header_cons _ _ _ _ (by decide +kernel) (by decide +kernel) ?_
  refine data_cons _ _ _ _ (by decide +kernel) (by decide +kernel) (by decide +kernel)
    (by decide +kernel) ?_
  refine round_cons _ _ (by decide +kernel) ?_
  refine header_cons _ _ _ _ (by decide +kernel) (by decide +kernel) ?_
  refine data_cons _ _ _ _ (by decide +kernel) (by decide +kernel) (by decide +kernel)
    (by decide +kernel) ?_
  refine header_cons _ _ _ _ (by decide +kernel) (by decide +kernel) ?_
  refine data_cons _ _ _ _ (by decide +kernel) (by decide +kernel) (by decide +kernel)
    (by decide +kernel) ?_
  refine header_cons _ _ _ _ (by decide +kernel) (by decide +kernel) ?_
  refine data_cons _ _ _ _ (by decide +kernel) (by decide +kernel) (by decide +kernel)
    (by decide +kernel) ?_
  refine round_cons _ _ (by decide +kernel) ?_
  refine round_cons _ _ (by decide +kernel) ?_
  trivial

theorem activated_after_invalidate :
    (activated [.invalidateBlock 2 disconnecting]).map Prod.snd = some (.returned true) := by
  decide +kernel

theorem activated_after_cousin :
    (activated (flagOps 3)).map (fun (tree, ended) =>
      (ended, tree.mapBlockIndex, [4, 2, 1].map tree.pprev,
        [4, 2, 1].map fun p => (tree.entry p).nStatus.failedValid,
        (tree.entry 4).nStatus.failedChild)) =
    some (.returned true, [4, 3, 2, 1], [some 2, some 1, none], [false, false, false], true) := by
  decide +kernel

end Cousin

open Cousin BlockTree FailedReorganization

/-- ReconsiderBlock on 3 clears the failure of 2, yet 4 still counts as its failed child. -/
theorem reconsider_leaves_cousin :
    start.Settled ∧
      (activated [.invalidateBlock 2 disconnecting]).map Prod.snd = some (.returned true) ∧
      ∃ next, activated (flagOps 3) = some (next, .returned true) ∧ ¬ next.Reversible := by
  refine ⟨start_settled, activated_after_invalidate, ?_⟩
  obtain ⟨⟨next, ended⟩, ran, facts⟩ := Option.map_eq_some_iff.mp activated_after_cousin
  simp only [Prod.mk.injEq, List.map_cons, List.map_nil, List.cons.injEq, and_true] at facts
  obtain ⟨rfl, index, ⟨above4, above2, above1⟩, ⟨sound4, sound2, sound1⟩, marked⟩ := facts
  refine ⟨next, ran, fun reversible => ?_⟩
  have valid : ¬ next.Failed 4 := by
    rw [failed_iff, FailedAncestor, above4]
    simp only [sound4, Bool.false_eq_true, Option.some.injEq, exists_eq_left', false_or]
    rw [failed_iff, FailedAncestor, above2]
    simp only [sound2, Bool.false_eq_true, Option.some.injEq, exists_eq_left', false_or]
    rw [failed_iff, FailedAncestor, above1]
    simp [sound1]
  have unmarked := reversible.unmarked 4 (by simp [index]) valid
  simp [BlockStatus.failed, marked] at unmarked

namespace Cousin

theorem flag_cons (tree : BlockTree) (op : FlagOp) (rest : List FlagOp)
    (taken : (flagStep tree op).isSome = true) (here : tree.Reverts op)
    (later : Machine.Along Reverts flagStep ((flagStep tree op).getD tree) rest) :
    Machine.Along Reverts flagStep tree (op :: rest) := by
  obtain ⟨next, stepped⟩ := Option.isSome_iff_exists.mp taken
  apply Machine.along_cons Reverts flagStep tree next op rest stepped here
  simpa [stepped] using later

theorem accepting_retries (tree : BlockTree) : tree.Retries accepting.connects := by
  intro p _ _ invalid
  simp [accepting, rejecting] at invalid

end Cousin

theorem flag_run_reversible_children :
    ∃ next, activated (flagOps 2) = some (next, .returned true) ∧ next.Reversible := by
  have reverts : Machine.Along Reverts flagStep start
      (flagOps 2 ++ [.activateBestChainRound accepting]) := by
    refine flag_cons _ _ _ (by decide +kernel)
      (show start.Disconnects 2 disconnecting by decide +kernel) ?_
    refine flag_cons _ _ _ (by decide +kernel) (accepting_retries _) ?_
    refine flag_cons _ _ _ (by decide +kernel) ⟨by decide +kernel, by decide +kernel⟩ ?_
    refine flag_cons _ _ _ (by decide +kernel) (accepting_retries _) ?_
    refine flag_cons _ _ _ (by decide +kernel) (accepting_retries _) ?_
    trivial
  have settles : (activated (flagOps 2)).map Prod.snd = some (.returned true) := by
    decide +kernel
  obtain ⟨⟨next, ended⟩, ran, rfl⟩ := Option.map_eq_some_iff.mp settles
  obtain ⟨middle, before, returned⟩ := Option.bind_eq_some_iff.mp ran
  exact ⟨next, ran, @flag_run_reversible start next timeHasher CChainParams.regTestParams
    start_settled (flagOps 2) middle accepting reverts before returned⟩

end CryptoYen
