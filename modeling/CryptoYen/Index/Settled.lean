import CryptoYen.Index.Flags

set_option autoImplicit false

namespace CryptoYen

namespace BlockTree

variable {tree next : BlockTree}

def Weighs (tree : BlockTree) (p : BlockPtr) : Prop :=
  ∀ q, tree.pprev p = some q → (tree.entry q).nChainWork < (tree.entry p).nChainWork

structure Settled (tree : BlockTree) : Prop where
  sound : tree.Sound
  stored : ∀ p ∈ tree.mapBlockIndex, tree.haveData p = true →
    BLOCK_VALID_TRANSACTIONS ≤ (tree.entry p).nStatus.valid ∧ tree.Weighs p
  rooted : ∀ p ∈ tree.chainActive.getLast?, tree.pprev p = none

theorem Settled.flagged (settled : tree.Settled) : Flagged .clear tree := by
  have seen : tree.veiled .clear = tree := veiled_clear tree
  have here (p : BlockPtr) (known : p ∈ tree.mapBlockIndex) (linked : tree.linked p = true) :=
    settled.stored p known (settled.sound.linkage.linked p known linked).stored
  refine ⟨seen.symm ▸ settled.sound, ?_, ?_, ?_, ?_, ?_, settled.rooted, ?_⟩
  · intro p hidden
    cases hidden
  · intro p lost
    cases lost
  · exact fun p known linked => (here p known linked).1
  · intro p known unlinked
    have unmarked := (settled.sound.linkage.sound p known unlinked).1
    rw [BlockStatus.failed, Bool.or_eq_false_iff] at unmarked
    exact unmarked.2
  · intro p connected
    have was := settled.sound.selection.connected p connected
    exact ⟨was.linked, was.parent_connected⟩
  · exact fun p known linked => (here p known linked).2

structure Renumbered (tree next : BlockTree) : Prop where
  mapBlockIndex : next.mapBlockIndex = tree.mapBlockIndex
  chainActive : next.chainActive = tree.chainActive
  entry : ∀ p, next.entry p =
    { tree.entry p with
      nChainTx := (next.entry p).nChainTx, nSequenceId := (next.entry p).nSequenceId }

namespace Renumbered

theorem refl (tree : BlockTree) : Renumbered tree tree := ⟨rfl, rfl, fun _ => rfl⟩

theorem trans {last : BlockTree} (first : Renumbered tree next) (second : Renumbered next last) :
    Renumbered tree last where
  mapBlockIndex := second.mapBlockIndex.trans first.mapBlockIndex
  chainActive := second.chainActive.trans first.chainActive
  entry p := by rw [second.entry p, first.entry p]

variable (renumbered : Renumbered tree next)

include renumbered

theorem status (p : BlockPtr) : (next.entry p).nStatus = (tree.entry p).nStatus := by
  rw [renumbered.entry p]

theorem work (p : BlockPtr) : (next.entry p).nChainWork = (tree.entry p).nChainWork := by
  rw [renumbered.entry p]

theorem pprev : next.pprev = tree.pprev := by
  funext p
  rw [BlockTree.pprev, renumbered.entry p]
  rfl

theorem weighs (p : BlockPtr) : next.Weighs p ↔ tree.Weighs p := by
  simp only [Weighs, renumbered.pprev, renumbered.work]

end Renumbered

theorem linkBlock_renumbered (tree : BlockTree) (p : BlockPtr) :
    Renumbered tree (tree.linkBlock p) := by
  refine ⟨linkBlock_index tree p, linkBlock_active tree p, fun q => ?_⟩
  by_cases same : q = p
  · subst same
    rw [linkBlock_self]
  · rw [linkBlock_other tree p q same]

theorem linkBlocks_renumbered (fuel : Nat) (tree : BlockTree) (queue : List BlockPtr) :
    Renumbered tree (linkBlocks fuel tree queue) := by
  induction fuel generalizing tree queue with
  | zero => exact Renumbered.refl tree
  | succ fuel ih =>
      cases queue with
      | nil => exact Renumbered.refl tree
      | cons pindex queue => exact (linkBlock_renumbered tree pindex).trans (ih _ _)

theorem receivedBlockTransactions_renumbered (tree : BlockTree) (nTx : Nat) (p : BlockPtr) :
    Renumbered (tree.storeData p nTx) (tree.receivedBlockTransactions nTx p) := by
  unfold receivedBlockTransactions awaitParent
  simp only
  split
  · exact linkBlocks_renumbered _ _ _
  · split
    · exact Renumbered.refl _
    · split
      · exact ⟨rfl, rfl, fun _ => rfl⟩
      · exact Renumbered.refl _

theorem storeData_weighs (p q : BlockPtr) (nTx : Nat) :
    (tree.storeData p nTx).Weighs q ↔ tree.Weighs q := by
  have work (q : BlockPtr) :
      ((tree.storeData p nTx).entry q).nChainWork = (tree.entry q).nChainWork := by
    by_cases same : q = p
    · subst same
      rw [storeData_self]
      rfl
    · rw [storeData_other tree p q nTx same]
  simp only [Weighs, storeData_pprev, work]

theorem Settled.header (settled : tree.Settled) (block : CBlockHeader) (pindexNew : BlockPtr)
    [BlockHasher] (fresh : pindexNew ∉ tree.mapBlockIndex) (fits : tree.WorkFits block) :
    (tree.addToBlockIndex block pindexNew).Settled := by
  have sound := addToBlockIndex_sound settled.sound block pindexNew fresh fits
  cases unknown : tree.find block.getHash with
  | some p => simpa [addToBlockIndex, unknown] using settled
  | none =>
      have sprouts := addToBlockIndex_sprouts block pindexNew unknown fresh fits
      generalize tree.addToBlockIndex block pindexNew = next at sound sprouts
      refine ⟨sound, fun p known stored => ?_, fun p last => ?_⟩
      · rw [sprouts.mapBlockIndex] at known
        rcases List.mem_cons.mp known with rfl | older
        · rw [sprouts.absent] at stored
          cases stored
        · rw [sprouts.haveData_eq p older] at stored
          obtain ⟨level, weighs⟩ := settled.stored p older stored
          rw [sprouts.kept p older]
          refine ⟨level, fun q above => ?_⟩
          rw [sprouts.pprev_eq p older] at above
          rw [sprouts.kept p older,
            sprouts.kept q (settled.sound.linkage.leveled.upward p older q above)]
          exact weighs q above
      · rw [sprouts.chainActive] at last
        have active := List.mem_of_mem_getLast? last
        rw [sprouts.pprev_eq p (settled.sound.selection.activeKnown p active)]
        exact settled.rooted p last

theorem Settled.data (settled : tree.Settled) {nTx : Nat} {p : BlockPtr}
    (storable : tree.Storable p nTx) (fits : tree.CountersFit nTx p) (weighs : tree.Weighs p) :
    (tree.receivedBlockTransactions nTx p).Settled := by
  have sound := receivedBlockTransactions_sound settled.sound storable fits
  have renumbered := receivedBlockTransactions_renumbered tree nTx p
  generalize tree.receivedBlockTransactions nTx p = next at sound renumbered
  have index : next.mapBlockIndex = tree.mapBlockIndex := renumbered.mapBlockIndex
  refine ⟨sound, fun q known stored => ?_, ?_⟩
  · rw [index] at known
    rw [renumbered.status, renumbered.weighs, storeData_weighs]
    by_cases same : q = p
    · subst same
      refine ⟨?_, weighs⟩
      have unmarked := (settled.sound.linkage.sound q known
        (storable.unlinked settled.sound.linkage)).1
      rw [storeData_self]
      exact BlockStatus.raiseValidity_reaches _ _ unmarked
    · rw [haveData, renumbered.status, storeData_other tree p q nTx same] at stored
      rw [storeData_other tree p q nTx same]
      exact settled.stored q known stored
  · rw [renumbered.chainActive, renumbered.pprev, storeData_pprev]
    exact settled.rooted

theorem Settled.round [BlockHasher] {params : CChainParams} (settled : tree.Settled)
    (verdicts : Verdicts) (reconnects : tree.Reconnects verdicts.connects) (ended : RoundEnd)
    (ran : tree.activateBestChainRound params verdicts = some (next, ended)) : next.Settled := by
  have clear : tree.veiled .clear = tree := veiled_clear tree
  obtain ⟨_, kept⟩ := activateBestChainRound_veiled (clear.symm ▸ settled.sound)
    (fun p hidden => by cases hidden) (fun p lost => by cases lost) verdicts ended ran
  refine ⟨(activateBestChainRound_spec settled.sound verdicts reconnects ended ran).1,
    fun p known stored => ?_, kept.rooted settled.rooted⟩
  have work (p : BlockPtr) := kept.field TreeEntry.nChainWork (fun _ _ => rfl) p
  rw [kept.mapBlockIndex] at known
  rw [kept.haveData] at stored
  obtain ⟨level, weighs⟩ := settled.stored p known stored
  refine ⟨level.trans (kept.valid p), fun q above => ?_⟩
  rw [kept.pprev] at above
  rw [work, work]
  exact weighs q above

/-- A steady step that takes the data of a block only where CheckWork accepted the block. -/
def Admits (tree : BlockTree) (op : IndexOp) : Prop :=
  tree.Steady op ∧ ∀ nTx p, op = .receivedBlockTransactions nTx p → tree.Weighs p

theorem step_settled [BlockHasher] {params : CChainParams} (settled : tree.Settled) (op : IndexOp)
    (next : BlockTree) (admits : tree.Admits op) (stepped : tree.step params op = some next) :
    next.Settled := by
  obtain ⟨steady, weighs⟩ := admits
  cases op with
  | addToBlockIndex block pindexNew =>
      unfold step at stepped
      simp only at stepped
      split at stepped
      next arrives =>
        cases stepped
        simp only [headerArrives, Bool.and_eq_true, decide_eq_true_eq] at arrives
        exact settled.header block pindexNew arrives.1 steady
      next => cases stepped
  | receivedBlockTransactions nTx pindexNew =>
      unfold step at stepped
      simp only at stepped
      split at stepped
      next arrives =>
        cases stepped
        simp only [dataArrives, Bool.and_eq_true, decide_eq_true_eq, Bool.not_eq_true'] at arrives
        obtain ⟨⟨⟨known, absent⟩, populated⟩, bounded⟩ := arrives
        have counted : nTx < 2 ^ 32 := by
          simp only [MAX_BLOCK_SIZE_CURRENT] at bounded
          omega
        exact settled.data ⟨known, absent, populated, counted⟩ steady (weighs nTx pindexNew rfl)
      next => cases stepped
  | activateBestChainRound verdicts =>
      obtain ⟨⟨after, ended⟩, ran, same⟩ := Option.map_eq_some_iff.mp stepped
      cases same
      exact settled.round verdicts steady ended ran

theorem empty_settled : empty.Settled := by
  refine ⟨empty_sound, fun p known => ?_, fun p last => ?_⟩
  · cases known
  · cases last

theorem run_settled [BlockHasher] {params : CChainParams} (ops : List IndexOp) (final : BlockTree)
    (admits : Machine.Along Admits (step params) empty ops)
    (ran : Machine.run (step params) empty ops = some final) : final.Settled :=
  Machine.run_invariant (step params) Admits Settled
    (fun _ op next here allowed stepped => step_settled here op next allowed stepped)
    empty final ops empty_settled admits ran

end BlockTree

end CryptoYen
