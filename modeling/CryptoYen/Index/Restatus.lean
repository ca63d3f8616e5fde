import CryptoYen.Index.Extension

set_option autoImplicit false

namespace CryptoYen

namespace BlockTree

variable {tree : BlockTree}

def Relabelled (tree next : BlockTree) : Prop :=
  ∀ p, next.entry p = { tree.entry p with nStatus := (next.entry p).nStatus }

namespace Relabelled

variable {next : BlockTree} (relabelled : Relabelled tree next)

include relabelled

theorem field {α : Type} (read : TreeEntry → α)
    (free : ∀ entry nStatus, read { entry with nStatus := nStatus } = read entry) (p : BlockPtr) :
    read (next.entry p) = read (tree.entry p) := by
  rw [relabelled p]
  exact free _ _

theorem pprev : next.pprev = tree.pprev :=
  funext fun p => relabelled.field TreeEntry.pprev (fun _ _ => rfl) p

theorem height : next.height = tree.height :=
  funext fun p => relabelled.field TreeEntry.nHeight (fun _ _ => rfl) p

theorem linked : next.linked = tree.linked :=
  funext fun p => relabelled.field (fun entry => entry.nChainTx != 0) (fun _ _ => rfl) p

theorem ancestry : next.ancestry = tree.ancestry := by
  funext p
  simp only [BlockTree.ancestry, relabelled.pprev, relabelled.height]

theorem rank (p : BlockPtr) : (next.entry p).rank p = (tree.entry p).rank p :=
  relabelled.field (fun entry => entry.rank p) (fun _ _ => rfl) p

theorem worse : next.worse = tree.worse := by
  funext a b
  rw [Bool.eq_iff_iff, next.worse_ranks a b, tree.worse_ranks a b]
  simp only [relabelled.rank]

end Relabelled

/-- The activation of a chain leaves the links alone: of an entry only nStatus moves, and only
that of a linked block. -/
structure Restatused (tree next : BlockTree) : Prop where
  mapBlockIndex : next.mapBlockIndex = tree.mapBlockIndex
  unlinked : next.mapBlocksUnlinked = tree.mapBlocksUnlinked
  sequence : next.nBlockSequenceId = tree.nBlockSequenceId
  entry : ∀ p, next.entry p = { tree.entry p with nStatus := (next.entry p).nStatus }
  haveData : next.haveData = tree.haveData
  untouched : ∀ p, tree.linked p = false → (next.entry p).nStatus = (tree.entry p).nStatus

namespace Restatused

variable {next : BlockTree}

theorem refl (tree : BlockTree) : Restatused tree tree :=
  ⟨rfl, rfl, rfl, fun _ => rfl, rfl, fun _ _ => rfl⟩

section fields

variable (restatused : Restatused tree next)

include restatused

theorem relabelled : Relabelled tree next := restatused.entry

theorem field {α : Type} (read : TreeEntry → α)
    (free : ∀ entry nStatus, read { entry with nStatus := nStatus } = read entry) (p : BlockPtr) :
    read (next.entry p) = read (tree.entry p) :=
  restatused.relabelled.field read free p

theorem pprev : next.pprev = tree.pprev := restatused.relabelled.pprev

theorem height : next.height = tree.height := restatused.relabelled.height

theorem linked : next.linked = tree.linked := restatused.relabelled.linked

theorem rank (p : BlockPtr) : (next.entry p).rank p = (tree.entry p).rank p :=
  restatused.relabelled.rank p

theorem worse : next.worse = tree.worse := restatused.relabelled.worse

theorem parentLinked : next.parentLinked = tree.parentLinked := by
  funext p
  simp only [BlockTree.parentLinked, restatused.pprev, restatused.linked]

theorem chainTotal : next.chainTotal = tree.chainTotal := by
  funext p
  have nTx (q : BlockPtr) := restatused.field TreeEntry.nTx (fun _ _ => rfl) q
  simp only [BlockTree.chainTotal, restatused.relabelled.ancestry, nTx]

theorem ancestorOrSelf (a p : BlockPtr) : next.AncestorOrSelf a p ↔ tree.AncestorOrSelf a p := by
  simp only [AncestorOrSelf, restatused.pprev]

theorem isLinked (p : BlockPtr) (was : tree.Linked p) : next.Linked p := by
  constructor
  · rw [restatused.haveData]
    exact was.stored
  · rw [restatused.field TreeEntry.nChainTx (fun _ _ => rfl) p, restatused.chainTotal]
    exact was.counted
  · rw [restatused.field TreeEntry.nSequenceId (fun _ _ => rfl) p, restatused.sequence]
    exact was.numbered
  · rw [restatused.parentLinked]
    exact was.parent_linked

theorem waits (parent : Option BlockPtr) (p : BlockPtr) (was : tree.Waits parent p) :
    next.Waits parent p := by
  constructor
  · rw [restatused.mapBlockIndex]
    exact was.known
  · rw [restatused.pprev]
    exact was.parent_eq
  · rw [restatused.haveData]
    exact was.stored
  · rw [restatused.linked]
    exact was.unlinked
  · rw [restatused.linked]
    exact was.parent_unlinked

theorem ready (p : BlockPtr) (was : tree.Ready p) : next.Ready p := by
  constructor
  · rw [restatused.mapBlockIndex]
    exact was.known
  · rw [restatused.haveData]
    exact was.stored
  · rw [restatused.linked]
    exact was.unlinked
  · rw [restatused.parentLinked]
    exact was.parent_linked

theorem linkage {queue : List BlockPtr} (linkage : tree.Linkage queue) : next.Linkage queue := by
  have nChainWork (p : BlockPtr) := restatused.field TreeEntry.nChainWork (fun _ _ => rfl) p
  have nTx (p : BlockPtr) := restatused.field TreeEntry.nTx (fun _ _ => rfl) p
  constructor
  · rw [restatused.pprev, restatused.mapBlockIndex, restatused.height]
    exact linkage.leveled
  · simp only [restatused.mapBlockIndex, restatused.pprev, nChainWork]
    exact linkage.workGrows
  · intro p known unlinked
    rw [restatused.mapBlockIndex] at known
    rw [restatused.linked] at unlinked
    rw [restatused.untouched p unlinked]
    exact linkage.sound p known unlinked
  · simp only [restatused.mapBlockIndex, restatused.haveData, nTx]
    exact linkage.populated
  · intro p known here
    rw [restatused.mapBlockIndex] at known
    rw [restatused.linked] at here
    exact restatused.isLinked p (linkage.linked p known here)
  · intro pair member
    rw [restatused.unlinked] at member
    exact restatused.waits pair.1 pair.2 (linkage.waits pair member)
  · exact fun p member => restatused.ready p (linkage.ready p member)
  · rw [restatused.unlinked]
    exact linkage.once
  · simp only [restatused.mapBlockIndex, restatused.haveData, restatused.linked, restatused.pprev,
      restatused.unlinked]
    exact linkage.recorded

theorem failed (failedValid : ∀ p, (tree.entry p).nStatus.failedValid = true →
      (next.entry p).nStatus.failedValid = true) (p : BlockPtr) (failed : tree.Failed p) :
    next.Failed p := by
  obtain ⟨a, ancestor, here⟩ := failed
  exact ⟨a, (restatused.ancestorOrSelf a p).mpr ancestor, failedValid a here⟩

theorem wasConnected (connected : ∀ q, tree.Connected q → next.Connected q) (p : BlockPtr)
    (sound : (next.entry p).nStatus.failedValid = false) (was : tree.WasConnected p) :
    next.WasConnected p := by
  constructor
  · rw [restatused.linked]
    exact was.linked
  · exact sound
  · intro q above
    rw [restatused.pprev] at above
    exact connected q (was.parent_connected q above)

end fields

theorem trans {last : BlockTree} (first : Restatused tree next) (second : Restatused next last) :
    Restatused tree last := by
  constructor
  · exact second.mapBlockIndex.trans first.mapBlockIndex
  · exact second.unlinked.trans first.unlinked
  · exact second.sequence.trans first.sequence
  · intro p
    rw [second.entry p, first.entry p]
  · exact second.haveData.trans first.haveData
  · intro p unlinked
    rw [second.untouched p ((congrFun first.linked p).trans unlinked)]
    exact first.untouched p unlinked

end Restatused

theorem setStatus_restatused (tree : BlockTree) (p : BlockPtr) (status : BlockStatus)
    (linked : tree.linked p = true) (haveData : status.haveData = tree.haveData p) :
    Restatused tree (tree.setStatus p status) := by
  constructor
  · rfl
  · rfl
  · rfl
  · intro q
    by_cases same : q = p <;> simp [setStatus, same]
  · funext q
    by_cases same : q = p
    · subst same
      simpa [setStatus, BlockTree.haveData] using haveData
    · simp [setStatus, BlockTree.haveData, same]
  · intro q unlinked
    have apart : q ≠ p := by
      rintro rfl
      rw [linked] at unlinked
      cases unlinked
    simp [setStatus, apart]

@[simp] theorem setStatus_self (tree : BlockTree) (p : BlockPtr) (status : BlockStatus) :
    ((tree.setStatus p status).entry p).nStatus = status := by
  simp [setStatus]

theorem setStatus_other (tree : BlockTree) (p q : BlockPtr) (status : BlockStatus)
    (other : q ≠ p) : (tree.setStatus p status).entry q = tree.entry q := by
  simp [setStatus, other]

structure Moves (tree next : BlockTree) : Prop extends Restatused tree next where
  failedValid : ∀ p, (tree.entry p).nStatus.failedValid = true →
    (next.entry p).nStatus.failedValid = true
  connected : ∀ p, tree.Connected p → next.Connected p
  candidates : ∀ p ∈ next.setBlockIndexCandidates, p ∈ tree.setBlockIndexCandidates
  erased : ∀ p ∈ tree.setBlockIndexCandidates, p ∉ next.setBlockIndexCandidates →
    next.Failed p ∨ ¬ next.Unbeaten p
  path : next.chainActive.IsChain fun p q => next.pprev p = some q
  activeKnown : ∀ p ∈ next.chainActive, p ∈ next.mapBlockIndex
  wasConnected : ∀ p, next.Connected p → next.WasConnected p
  descends : ∀ p ∈ next.mapBlockIndex, (next.entry p).nStatus.failedChild = true → next.Failed p
  as_good : ∀ p ∈ next.setBlockIndexCandidates, ∀ active ∈ next.chainActive,
    next.worse p active = false

namespace Moves

variable {next : BlockTree}

theorem failed (moves : Moves tree next) (p : BlockPtr) (failed : tree.Failed p) :
    next.Failed p :=
  moves.toRestatused.failed moves.failedValid p failed

theorem sound (moves : Moves tree next) (sound : tree.Sound) : next.Sound := by
  refine ⟨moves.linkage sound.linkage, ?_⟩
  have selection := sound.selection
  constructor
  · exact moves.path
  · exact moves.activeKnown
  · exact moves.wasConnected
  · exact moves.descends
  · intro p known linked valid unbeaten
    rw [moves.mapBlockIndex] at known
    rw [moves.linked] at linked
    have before : p ∈ tree.setBlockIndexCandidates := by
      apply selection.offered p known linked (fun failed => valid (moves.failed p failed))
      intro other connected
      have here := unbeaten other (moves.connected other connected)
      rw [moves.worse] at here
      exact here
    by_contra gone
    rcases moves.erased p before gone with failed | beaten
    · exact valid failed
    · exact beaten unbeaten
  · intro p member
    have was := selection.candidates p (moves.candidates p member)
    constructor
    · rw [moves.mapBlockIndex]
      exact was.known
    · rw [moves.linked]
      exact was.linked
    · exact moves.as_good p member

end Moves

end BlockTree

end CryptoYen
