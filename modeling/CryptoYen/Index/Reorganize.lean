import Mathlib.Data.List.Chain
import CryptoYen.Index.Restatus

set_option autoImplicit false

namespace CryptoYen

namespace BlockTree

variable {tree : BlockTree}

namespace Restatused

variable {next : BlockTree} (restatused : Restatused tree next)

include restatused

theorem erase (p : BlockPtr) : Restatused tree (next.eraseCandidate p) :=
  ⟨restatused.mapBlockIndex, restatused.unlinked, restatused.sequence, restatused.entry,
    restatused.haveData, restatused.untouched⟩

theorem activate (chain candidates : List BlockPtr) :
    Restatused tree
      { next with chainActive := chain, setBlockIndexCandidates := candidates } :=
  ⟨restatused.mapBlockIndex, restatused.unlinked, restatused.sequence, restatused.entry,
    restatused.haveData, restatused.untouched⟩

end Restatused

theorem mem_eraseCandidate (p q : BlockPtr) :
    q ∈ (tree.eraseCandidate p).setBlockIndexCandidates ↔
      q ∈ tree.setBlockIndexCandidates ∧ q ≠ p := by
  simp [eraseCandidate]

section marking

variable {x : BlockPtr} {status : BlockStatus}

theorem mark_moves (sound : tree.Sound) (linked : tree.linked x = true)
    (haveData : status.haveData = tree.haveData x)
    (haveUndo : status.haveUndo = (tree.entry x).nStatus.haveUndo)
    (grows : (tree.entry x).nStatus.failedValid = true → status.failedValid = true)
    (spares : tree.Connected x → status.failedValid = false)
    (failed : ((tree.setStatus x status).eraseCandidate x).Failed x) :
    Moves tree ((tree.setStatus x status).eraseCandidate x) := by
  obtain ⟨_, selection⟩ := sound
  have restatused := (setStatus_restatused tree x status linked haveData).erase x
  generalize placed : (tree.setStatus x status).eraseCandidate x = next at *
  have self : (next.entry x).nStatus = status := by
    rw [← placed]
    exact setStatus_self tree x status
  have other (q : BlockPtr) (apart : q ≠ x) : next.entry q = tree.entry q := by
    rw [← placed]
    exact setStatus_other tree x q status apart
  have active : next.chainActive = tree.chainActive := by rw [← placed]; rfl
  have candidates (q : BlockPtr) :
      q ∈ next.setBlockIndexCandidates ↔ q ∈ tree.setBlockIndexCandidates ∧ q ≠ x := by
    rw [← placed]
    exact mem_eraseCandidate x q
  have undone (q : BlockPtr) :
      (next.entry q).nStatus.haveUndo = (tree.entry q).nStatus.haveUndo := by
    by_cases same : q = x
    · subst same
      rw [self, haveUndo]
    · rw [other q same]
  have failedValid (q : BlockPtr) (before : (tree.entry q).nStatus.failedValid = true) :
      (next.entry q).nStatus.failedValid = true := by
    by_cases same : q = x
    · subst same
      rw [self]
      exact grows before
    · rw [other q same]
      exact before
  have connected_iff (q : BlockPtr) : next.Connected q ↔ tree.Connected q := by
    simp only [Connected, restatused.mapBlockIndex, active, undone]
  constructor
  · exact restatused
  · exact failedValid
  · intro q here
    exact (connected_iff q).mpr here
  · intro q member
    exact ((candidates q).mp member).1
  · intro q before gone
    left
    rw [candidates, not_and, not_not] at gone
    rw [gone before]
    exact failed
  · rw [active, restatused.pprev]
    exact selection.path
  · rw [active, restatused.mapBlockIndex]
    exact selection.activeKnown
  · intro q here
    rw [connected_iff] at here
    have was := selection.connected q here
    apply restatused.wasConnected (fun parent => (connected_iff parent).mpr) q _ was
    by_cases same : q = x
    · subst same
      rw [self]
      exact spares here
    · rw [other q same]
      exact was.sound
  · intro q known marked
    by_cases same : q = x
    · rw [same]
      exact failed
    · rw [restatused.mapBlockIndex] at known
      rw [other q same] at marked
      exact restatused.failed failedValid q (selection.descends q known marked)
  · intro q member a inside
    rw [active] at inside
    rw [restatused.worse]
    exact (selection.candidates q ((candidates q).mp member).1).as_good a inside

theorem dropDescendant_moves (sound : tree.Sound) (linked : tree.linked x = true)
    (failed : tree.Failed x) : Moves tree (dropDescendant true tree x) := by
  obtain ⟨a, ancestor, here⟩ := failed
  refine mark_moves sound linked rfl rfl (fun before => before)
    (fun connected => (sound.selection.connected x connected).sound) ⟨a, ?_, ?_⟩
  · have restatused := setStatus_restatused tree x
      { (tree.entry x).nStatus with failedChild := true } linked rfl
    exact ((restatused.erase x).ancestorOrSelf a x).mpr ancestor
  · by_cases same : a = x
    · subst same
      exact (congrArg BlockStatus.failedValid (setStatus_self tree a _)).trans here
    · exact (congrArg (fun entry => entry.nStatus.failedValid)
        (setStatus_other tree x a _ same)).trans here

theorem eraseFailed_moves (sound : tree.Sound) (linked : tree.linked x = true)
    (failed : tree.Failed x) : Moves tree (tree.eraseCandidate x) := by
  have same : tree.setStatus x (tree.entry x).nStatus = tree := by
    simp [setStatus, setEntry]
  have moves := @mark_moves tree x (tree.entry x).nStatus sound linked rfl rfl
    (fun before => before) (fun connected => (sound.selection.connected x connected).sound)
  rw [same] at moves
  exact moves failed

theorem markInvalid_moves (sound : tree.Sound) (linked : tree.linked x = true)
    (never : ¬ tree.Connected x) :
    Moves tree
      ((tree.setStatus x { (tree.entry x).nStatus with failedValid := true }).eraseCandidate x) := by
  apply @mark_moves tree x { (tree.entry x).nStatus with failedValid := true } sound linked rfl rfl
    (fun _ => rfl) (fun connected => absurd connected never)
  refine ⟨x, Ancestry.AncestorOrSelf.refl x, ?_⟩
  exact congrArg BlockStatus.failedValid (setStatus_self tree x _)

end marking

section shortening

variable {chain removed : List BlockPtr}

theorem disconnect_connected (split : tree.chainActive = removed ++ chain) (p : BlockPtr)
    (here : BlockTree.Connected { tree with chainActive := chain } p) : tree.Connected p := by
  obtain ⟨known, active | undo⟩ := here
  · refine ⟨known, Or.inl ?_⟩
    rw [split]
    exact List.mem_append_right removed active
  · exact ⟨known, Or.inr undo⟩

theorem disconnect_moves (sound : tree.Sound) (split : tree.chainActive = removed ++ chain)
    (undone : ∀ p ∈ removed, (tree.entry p).nStatus.haveUndo = true) :
    Moves tree { tree with chainActive := chain } := by
  obtain ⟨_, selection⟩ := sound
  have inside (p : BlockPtr) (member : p ∈ chain) : p ∈ tree.chainActive := by
    rw [split]
    exact List.mem_append_right removed member
  have forward (p : BlockPtr) (here : tree.Connected p) :
      BlockTree.Connected { tree with chainActive := chain } p := by
    obtain ⟨known, active | undo⟩ := here
    · rw [split] at active
      rcases List.mem_append.mp active with gone | stays
      · exact ⟨known, Or.inr (undone p gone)⟩
      · exact ⟨known, Or.inl stays⟩
    · exact ⟨known, Or.inr undo⟩
  constructor
  · exact (Restatused.refl tree).activate chain tree.setBlockIndexCandidates
  · exact fun p failed => failed
  · exact forward
  · exact fun p member => member
  · exact fun p member gone => absurd member gone
  · have path := selection.path
    rw [split] at path
    exact path.right_of_append
  · exact fun p member => selection.activeKnown p (inside p member)
  · intro p here
    have was := selection.connected p (disconnect_connected split p here)
    exact ⟨was.linked, was.sound, fun q above => forward q (was.parent_connected q above)⟩
  · exact selection.descends
  · exact fun p member active activeMember =>
      (selection.candidates p member).as_good active (inside active activeMember)

theorem disconnectTips_spec (tree : BlockTree) (pindexFork : Option BlockPtr)
    (disconnects : BlockPtr → Bool) (chain : List BlockPtr) :
    ∃ removed,
      chain = removed ++ (tree.disconnectTips pindexFork disconnects chain).1 ∧
        ∀ p ∈ removed, (tree.entry p).nStatus.haveUndo = true := by
  induction chain with
  | nil => exact ⟨[], rfl, fun p member => by cases member⟩
  | cons pindexDelete rest ih =>
      unfold disconnectTips
      split
      next => exact ⟨[], rfl, fun p member => by cases member⟩
      next =>
        split
        next disconnected =>
          obtain ⟨removed, split, undone⟩ := ih
          rw [Bool.and_eq_true] at disconnected
          refine ⟨pindexDelete :: removed, congrArg (pindexDelete :: ·) split, ?_⟩
          intro p member
          rcases List.mem_cons.mp member with rfl | later
          · exact disconnected.1
          · exact undone p later
        next => exact ⟨[], rfl, fun p member => by cases member⟩

end shortening

end BlockTree

end CryptoYen
