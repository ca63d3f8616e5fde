import CryptoYen.Index.MostWork

set_option autoImplicit false

namespace CryptoYen

namespace BlockTree

variable [BlockHasher] {tree : BlockTree} {params : CChainParams}

section status

variable (params : CChainParams) (entry : TreeEntry)

theorem connectedStatus_haveData :
    (connectedStatus params entry).haveData = entry.nStatus.haveData := by
  unfold connectedStatus
  split <;> simp

theorem connectedStatus_failedValid :
    (connectedStatus params entry).failedValid = entry.nStatus.failedValid := by
  unfold connectedStatus
  split <;> simp

theorem connectedStatus_failedChild :
    (connectedStatus params entry).failedChild = entry.nStatus.failedChild := by
  unfold connectedStatus
  split <;> simp

theorem connectedStatus_haveUndo (undo : entry.nStatus.haveUndo = true) :
    (connectedStatus params entry).haveUndo = true := by
  unfold connectedStatus
  split <;> simp [undo]

end status

def connected (params : CChainParams) (tree : BlockTree) (p : BlockPtr) : BlockTree :=
  { tree.setStatus p (connectedStatus params (tree.entry p)) with
    chainActive := p :: tree.chainActive }

def pruned (tree : BlockTree) : BlockTree :=
  { tree with
    setBlockIndexCandidates :=
      tree.setBlockIndexCandidates.filter fun p => !tree.worseThanTip p }

omit [BlockHasher] in
theorem prune_some (next : BlockTree) (done : tree.pruneBlockIndexCandidates = some next) :
    next = tree.pruned := by
  unfold pruneBlockIndexCandidates at done
  simp only at done
  split at done
  · cases done
  · cases done
    rfl

section connecting

variable (params : CChainParams) (tree : BlockTree) (p : BlockPtr)

theorem connected_self :
    ((connected params tree p).pruned.entry p).nStatus = connectedStatus params (tree.entry p) :=
  setStatus_self tree p _

theorem connected_other (q : BlockPtr) (apart : q ≠ p) :
    (connected params tree p).pruned.entry q = tree.entry q :=
  setStatus_other tree p q _ apart

theorem connected_restatused (linked : tree.linked p = true) :
    Restatused tree (connected params tree p).pruned :=
  (setStatus_restatused tree p (connectedStatus params (tree.entry p)) linked
    (connectedStatus_haveData params _)).activate _ _

theorem connected_failedValid (q : BlockPtr) :
    ((connected params tree p).pruned.entry q).nStatus.failedValid =
      (tree.entry q).nStatus.failedValid := by
  by_cases same : q = p
  · subst same
    rw [connected_self, connectedStatus_failedValid]
  · rw [connected_other params tree p q same]

theorem connected_failedChild (q : BlockPtr) :
    ((connected params tree p).pruned.entry q).nStatus.failedChild =
      (tree.entry q).nStatus.failedChild := by
  by_cases same : q = p
  · subst same
    rw [connected_self, connectedStatus_failedChild]
  · rw [connected_other params tree p q same]

omit [BlockHasher] in
theorem path_cons (path : tree.chainActive.IsChain fun a b => tree.pprev a = some b)
    (onTip : tree.pprev p = tree.tip) :
    (p :: tree.chainActive).IsChain fun a b => tree.pprev a = some b := by
  unfold BlockTree.tip at onTip
  cases chain : tree.chainActive with
  | nil => exact List.isChain_singleton p
  | cons t rest =>
      rw [chain] at path onTip
      exact List.isChain_cons_cons.mpr ⟨onTip, path⟩

theorem connected_iff (known : p ∈ tree.mapBlockIndex) (q : BlockPtr) :
    (connected params tree p).pruned.Connected q ↔ tree.Connected q ∨ q = p := by
  constructor
  · rintro ⟨inside, active | undo⟩
    · rcases List.mem_cons.mp active with same | before
      · exact Or.inr same
      · exact Or.inl ⟨inside, Or.inl before⟩
    · by_cases same : q = p
      · exact Or.inr same
      · rw [connected_other params tree p q same] at undo
        exact Or.inl ⟨inside, Or.inr undo⟩
  · rintro (⟨inside, active | undo⟩ | rfl)
    · exact ⟨inside, Or.inl (List.mem_cons_of_mem p active)⟩
    · refine ⟨inside, Or.inr ?_⟩
      by_cases same : q = p
      · subst same
        rw [connected_self]
        exact connectedStatus_haveUndo params _ undo
      · rw [connected_other params tree p q same]
        exact undo
    · exact ⟨known, Or.inl List.mem_cons_self⟩

theorem connected_candidates (q : BlockPtr) :
    q ∈ (connected params tree p).pruned.setBlockIndexCandidates ↔
      q ∈ tree.setBlockIndexCandidates ∧
        (connected params tree p).pruned.worse q p = false := by
  show q ∈ tree.setBlockIndexCandidates.filter _ ↔ _
  rw [List.mem_filter, Bool.not_eq_true']
  rfl

end connecting

theorem connect_moves (sound : tree.Sound) (p : BlockPtr) (known : p ∈ tree.mapBlockIndex)
    (linked : tree.linked p = true) (valid : ¬ tree.Failed p)
    (onTip : tree.pprev p = tree.tip) : Moves tree (connected params tree p).pruned := by
  obtain ⟨_, selection⟩ := sound
  have restatused := connected_restatused params tree p linked
  have failedValid := connected_failedValid params tree p
  have connected_iff := connected_iff params tree p known
  have candidates := connected_candidates params tree p
  have stays (q : BlockPtr) (before : tree.Connected q) := (connected_iff q).mpr (Or.inl before)
  constructor
  · exact restatused
  · intro q before
    rw [failedValid]
    exact before
  · exact stays
  · intro q member
    exact ((candidates q).mp member).1
  · intro q before gone
    right
    intro unbeaten
    apply gone
    exact (candidates q).mpr ⟨before, unbeaten p ((connected_iff p).mpr (Or.inr rfl))⟩
  · rw [restatused.pprev]
    exact path_cons tree p selection.path onTip
  · intro q member
    rcases List.mem_cons.mp member with rfl | before
    · exact known
    · exact selection.activeKnown q before
  · intro q now
    by_cases same : q = p
    · subst same
      constructor
      · rw [restatused.linked]
        exact linked
      · rw [failedValid, ← Bool.not_eq_true]
        exact fun failed => valid ⟨q, Ancestry.AncestorOrSelf.refl q, failed⟩
      · intro parent above
        rw [restatused.pprev, onTip] at above
        have member := List.mem_of_mem_head? above
        exact stays parent ⟨selection.activeKnown parent member, Or.inl member⟩
    · have was := selection.connected q (((connected_iff q).mp now).resolve_right same)
      exact restatused.wasConnected stays q ((failedValid q).trans was.sound) was
  · intro q inside marked
    rw [connected_failedChild] at marked
    exact restatused.failed (fun a before => (failedValid a).trans before) q
      (selection.descends q inside marked)
  · intro q member active inside
    obtain ⟨before, good⟩ := (candidates q).mp member
    rcases List.mem_cons.mp inside with rfl | older
    · exact good
    · rw [restatused.worse]
      exact (selection.candidates q before).as_good active older

end BlockTree

end CryptoYen
