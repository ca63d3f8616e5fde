import CryptoYen.Index.Invariant

set_option autoImplicit false

namespace CryptoYen

namespace BlockTree

variable {tree : BlockTree}

@[simp] theorem setEntry_entry (tree : BlockTree) (p q : BlockPtr) (entry : TreeEntry) :
    (tree.setEntry p entry).entry q = if q = p then entry else tree.entry q :=
  Function.update_apply tree.entry p entry q

theorem active_descends (path : tree.chainActive.IsChain fun p q => tree.pprev p = some q)
    (t : BlockPtr) (atTip : tree.tip = some t) (active : BlockPtr)
    (member : active ∈ tree.chainActive) : tree.AncestorOrSelf active t := by
  unfold BlockTree.tip at atTip
  generalize tree.chainActive = chain at path atTip member
  induction chain generalizing t with
  | nil => cases member
  | cons first rest ih =>
      cases atTip
      rcases List.mem_cons.mp member with rfl | older
      · exact Ancestry.AncestorOrSelf.refl active
      · cases rest with
        | nil => cases older
        | cons second rest =>
            simp only [List.isChain_cons_cons] at path
            exact Ancestry.AncestorOrSelf.step path.1 (ih second path.2 rfl older)

theorem chain_descends (chain : List BlockPtr)
    (path : chain.IsChain fun p q => tree.pprev p = some q) (a p : BlockPtr)
    (first : chain.head? = some p) (member : a ∈ chain) : tree.AncestorOrSelf a p :=
  @active_descends { tree with chainActive := chain } path p first a member

structure Extends (tree next : BlockTree) : Prop where
  mapBlockIndex : next.mapBlockIndex = tree.mapBlockIndex
  chainActive : next.chainActive = tree.chainActive
  pprev : next.pprev = tree.pprev
  failedValid : ∀ p, (next.entry p).nStatus.failedValid = (tree.entry p).nStatus.failedValid
  failedChild : ∀ p, (next.entry p).nStatus.failedChild = (tree.entry p).nStatus.failedChild
  haveUndo : ∀ p, (next.entry p).nStatus.haveUndo = (tree.entry p).nStatus.haveUndo
  linked : ∀ p, tree.linked p = true → next.linked p = true
  rank : ∀ p, tree.linked p = true → (next.entry p).rank p = (tree.entry p).rank p
  candidates : ∀ p ∈ tree.setBlockIndexCandidates, p ∈ next.setBlockIndexCandidates
  offered : ∀ p, tree.linked p = false → next.linked p = true → next.worseThanTip p = false →
    p ∈ next.setBlockIndexCandidates
  added : ∀ p ∈ next.setBlockIndexCandidates,
    p ∈ tree.setBlockIndexCandidates ∨ next.Candidate p

namespace Extends

variable {next : BlockTree}

theorem failed_iff (extension : Extends tree next) (p : BlockPtr) :
    next.Failed p ↔ tree.Failed p := by
  simp only [Failed, AncestorOrSelf, extension.pprev, extension.failedValid]

theorem connected_iff (extension : Extends tree next) (p : BlockPtr) :
    next.Connected p ↔ tree.Connected p := by
  simp only [Connected, extension.mapBlockIndex, extension.chainActive, extension.haveUndo]

theorem worse_eq (extension : Extends tree next) (a b : BlockPtr) (first : tree.linked a = true)
    (second : tree.linked b = true) : next.worse a b = tree.worse a b := by
  rw [Bool.eq_iff_iff, next.worse_ranks a b, tree.worse_ranks a b]
  simp only [extension.rank a first, extension.rank b second]

theorem selection (extension : Extends tree next) (selection : tree.Selection) :
    next.Selection := by
  have activeConnected (p : BlockPtr) (member : p ∈ tree.chainActive) : tree.Connected p :=
    ⟨selection.activeKnown p member, Or.inl member⟩
  have connectedLinked (p : BlockPtr) (here : tree.Connected p) : tree.linked p = true :=
    (selection.connected p here).linked
  constructor
  · rw [extension.chainActive, extension.pprev]
    exact selection.path
  · rw [extension.chainActive, extension.mapBlockIndex]
    exact selection.activeKnown
  · intro p here
    rw [extension.connected_iff] at here
    have was := selection.connected p here
    constructor
    · exact extension.linked p was.linked
    · rw [extension.failedValid]
      exact was.sound
    · intro q above
      rw [extension.pprev] at above
      exact (extension.connected_iff q).mpr (was.parent_connected q above)
  · intro p known failed
    rw [extension.mapBlockIndex] at known
    rw [extension.failedChild] at failed
    exact (extension.failed_iff p).mpr (selection.descends p known failed)
  · intro p known linked valid unbeaten
    rw [extension.mapBlockIndex] at known
    rw [extension.failed_iff] at valid
    by_cases before : tree.linked p = true
    · apply extension.candidates p
      apply selection.offered p known before valid
      intro other connected
      have here := unbeaten other ((extension.connected_iff other).mpr connected)
      rw [extension.worse_eq p other before (connectedLinked other connected)] at here
      exact here
    · apply extension.offered p (Bool.eq_false_iff.mpr before) linked
      cases tip : next.tip with
      | none => simp [worseThanTip, tip]
      | some t =>
          simp only [worseThanTip, tip]
          apply unbeaten t
          have member := List.mem_of_mem_head? tip
          rw [extension.chainActive] at member
          exact (extension.connected_iff t).mpr (activeConnected t member)
  · intro p candidate
    rcases extension.added p candidate with before | here
    · have was := selection.candidates p before
      constructor
      · rw [extension.mapBlockIndex]
        exact was.known
      · exact extension.linked p was.linked
      · intro active member
        rw [extension.chainActive] at member
        rw [extension.worse_eq p active was.linked
          (connectedLinked active (activeConnected active member))]
        exact was.as_good active member
    · exact here

end Extends

end BlockTree

end CryptoYen
