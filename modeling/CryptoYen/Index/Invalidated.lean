import CryptoYen.Index.Flags

set_option autoImplicit false

namespace CryptoYen

namespace BlockTree

variable {tree next : BlockTree} {b : BlockPtr} {removed : List BlockPtr}

structure Dropped (tree next : BlockTree) (members : List BlockPtr) : Prop where
  mapBlockIndex : next.mapBlockIndex = tree.mapBlockIndex
  chainActive : next.chainActive = tree.chainActive
  unlinked : next.mapBlocksUnlinked = tree.mapBlocksUnlinked
  sequence : next.nBlockSequenceId = tree.nBlockSequenceId
  entry : ∀ p, next.entry p =
    { tree.entry p with
      nStatus :=
        { (tree.entry p).nStatus with
          failedChild := (tree.entry p).nStatus.failedChild || decide (p ∈ members) } }
  candidates : ∀ p, p ∈ next.setBlockIndexCandidates ↔
    p ∈ tree.setBlockIndexCandidates ∧ p ∉ members

theorem dropDescendants_dropped (members : List BlockPtr) (tree : BlockTree) :
    Dropped tree (members.foldl (dropDescendant true) tree) members := by
  induction members generalizing tree with
  | nil => exact ⟨rfl, rfl, rfl, rfl, fun p => by simp, fun p => by simp⟩
  | cons x rest ih =>
      obtain ⟨index, active, unlinked, sequence, entry, candidates⟩ :=
        ih (dropDescendant true tree x)
      refine ⟨index, active, unlinked, sequence, fun p => ?_, fun p => ?_⟩
      · rw [List.foldl_cons, entry]
        by_cases same : p = x
        · simp [dropDescendant, eraseCandidate, setStatus, same]
        · simp [dropDescendant, eraseCandidate, setStatus, same]
      · rw [List.foldl_cons, candidates]
        simp only [dropDescendant, ↓reduceIte, mem_eraseCandidate, List.mem_cons, not_or]
        exact and_assoc

theorem invalidateTips_spec (pindex : BlockPtr) (disconnects : BlockPtr → Bool)
    (base : BlockTree) (chain : List BlockPtr)
    (path : chain.IsChain fun p q => base.pprev p = some q) (tree next : BlockTree)
    (ran : invalidateTips pindex disconnects tree chain = (next, true)) :
    ∃ removed rest, chain = removed ++ rest ∧ pindex ∉ rest ∧
      (∀ p ∈ removed, (tree.entry p).nStatus.haveUndo = true ∧ base.AncestorOrSelf pindex p) ∧
      next = { removed.foldl (dropDescendant true) tree with chainActive := rest } := by
  induction chain generalizing tree with
  | nil =>
      cases ran
      exact ⟨[], [], rfl, List.not_mem_nil, by simp, rfl⟩
  | cons pindexWalk rest ih =>
      unfold invalidateTips at ran
      split at ran
      next inside =>
        simp only at ran
        split at ran
        next disconnected =>
          obtain ⟨removed, left, split, gone, undone, same⟩ := ih path.tail _ ran
          rw [Bool.and_eq_true] at disconnected
          have here : base.AncestorOrSelf pindex pindexWalk :=
            chain_descends _ path pindex pindexWalk rfl inside
          refine ⟨pindexWalk :: removed, left, congrArg (pindexWalk :: ·) split, gone, ?_, same⟩
          intro p member
          by_cases again : p = pindexWalk
          · rw [again]
            exact ⟨disconnected.1, here⟩
          · have later := undone p ((List.mem_cons.mp member).resolve_left again)
            simpa [eraseCandidate, setStatus, again] using later
        next => cases ran
      next outside =>
        cases ran
        exact ⟨[], pindexWalk :: rest, rfl, outside, by simp, rfl⟩

theorem invalidateTips_done (pindex : BlockPtr) (disconnects : BlockPtr → Bool)
    (base : BlockTree) (chain : List BlockPtr)
    (path : chain.IsChain fun p q => base.pprev p = some q) (tree : BlockTree)
    (undone : ∀ p ∈ chain, base.AncestorOrSelf pindex p →
      (tree.entry p).nStatus.haveUndo = true ∧ disconnects p = true) :
    (invalidateTips pindex disconnects tree chain).2 = true := by
  induction chain generalizing tree with
  | nil => rfl
  | cons pindexWalk rest ih =>
      unfold invalidateTips
      split
      next inside =>
        obtain ⟨undo, disconnected⟩ := undone pindexWalk List.mem_cons_self
          (chain_descends _ path pindex pindexWalk rfl inside)
        simp only [undo, disconnected, Bool.and_self, ↓reduceIte]
        refine ih path.tail _ fun p member descends => ?_
        have here := undone p (List.mem_cons_of_mem _ member) descends
        by_cases same : p = pindexWalk
        · subst same
          exact ⟨by simp [eraseCandidate, setStatus], disconnected⟩
        · simpa [eraseCandidate, setStatus, same] using here
      next => rfl

theorem offerAll_spec (members : List BlockPtr) (tree : BlockTree) :
    ∃ offered, members.foldl offerIfValid tree =
        { tree with setBlockIndexCandidates := offered } ∧
      ∀ p, p ∈ offered ↔ p ∈ tree.setBlockIndexCandidates ∨
        p ∈ members ∧ (tree.entry p).nStatus.isValid BLOCK_VALID_TRANSACTIONS = true ∧
          tree.linked p = true ∧ tree.worseThanTip p = false := by
  induction members generalizing tree with
  | nil => exact ⟨tree.setBlockIndexCandidates, rfl, fun p => by simp⟩
  | cons x rest ih =>
      have once : ∃ offered, offerIfValid tree x =
            { tree with setBlockIndexCandidates := offered } ∧
          ∀ p, p ∈ offered ↔ p ∈ tree.setBlockIndexCandidates ∨
            p = x ∧ (tree.entry p).nStatus.isValid BLOCK_VALID_TRANSACTIONS = true ∧
              tree.linked p = true ∧ tree.worseThanTip p = false := by
        unfold offerIfValid offerBlock
        split
        next valid =>
          rw [Bool.and_eq_true] at valid
          split
          next worse =>
            refine ⟨tree.setBlockIndexCandidates, rfl, fun p => ?_⟩
            have apart : ¬ (p = x ∧ tree.worseThanTip p = false) := by
              rintro ⟨rfl, good⟩
              rw [worse] at good
              cases good
            tauto
          next good =>
            rw [Bool.not_eq_true] at good
            refine ⟨tree.setBlockIndexCandidates.insert x, rfl, fun p => ?_⟩
            rw [List.mem_insert_iff]
            constructor
            · rintro (rfl | before)
              · exact .inr ⟨rfl, valid.1, valid.2, good⟩
              · exact .inl before
            · tauto
        next invalid =>
          refine ⟨tree.setBlockIndexCandidates, rfl, fun p => ?_⟩
          rw [Bool.and_eq_true] at invalid
          have apart : ¬ (p = x ∧ (tree.entry p).nStatus.isValid BLOCK_VALID_TRANSACTIONS = true ∧
              tree.linked p = true) := by
            rintro ⟨rfl, valid⟩
            exact invalid valid
          tauto
      obtain ⟨first, placed, mem_first⟩ := once
      obtain ⟨offered, same, mem_offered⟩ := ih (offerIfValid tree x)
      refine ⟨offered, ?_, fun p => ?_⟩
      · rw [List.foldl_cons, same, placed]
      · rw [mem_offered, placed]
        show (p ∈ first ∨ p ∈ rest ∧ (tree.entry p).nStatus.isValid BLOCK_VALID_TRANSACTIONS = true ∧
          tree.linked p = true ∧ tree.worseThanTip p = false) ↔ _
        rw [mem_first, List.mem_cons]
        tauto

def Disconnects (tree : BlockTree) (b : BlockPtr) (disconnects : BlockPtr → Bool) : Prop :=
  ∀ p ∈ tree.chainActive, b ∈ tree.ancestry p →
    (tree.entry p).nStatus.haveUndo = true ∧ disconnects p = true

instance (tree : BlockTree) (b : BlockPtr) (disconnects : BlockPtr → Bool) :
    Decidable (tree.Disconnects b disconnects) :=
  inferInstanceAs (Decidable (∀ p ∈ tree.chainActive, _ → _))

structure Invalidated (tree next : BlockTree) (b : BlockPtr) (removed : List BlockPtr) : Prop where
  mapBlockIndex : next.mapBlockIndex = tree.mapBlockIndex
  unlinked : next.mapBlocksUnlinked = tree.mapBlocksUnlinked
  sequence : next.nBlockSequenceId = tree.nBlockSequenceId
  entry : ∀ p, next.entry p =
    { tree.entry p with
      nStatus :=
        { (tree.entry p).nStatus with
          failedValid := (tree.entry p).nStatus.failedValid || p == b
          failedChild := (tree.entry p).nStatus.failedChild || decide (p ∈ removed) } }
  split : tree.chainActive = removed ++ next.chainActive
  gone : b ∉ next.chainActive
  undone : ∀ p ∈ removed, (tree.entry p).nStatus.haveUndo = true ∧ tree.AncestorOrSelf b p
  tip : next.chainActive ≠ []
  candidates : ∀ p, p ∈ next.setBlockIndexCandidates ↔
    (p ∈ tree.setBlockIndexCandidates ∧ p ≠ b ∧ p ∉ removed) ∨
      p ∈ tree.mapBlockIndex ∧ (next.entry p).nStatus.isValid BLOCK_VALID_TRANSACTIONS = true ∧
        next.linked p = true ∧ next.worseThanTip p = false

def markInvalid (tree : BlockTree) (b : BlockPtr) : BlockTree :=
  (tree.setStatus b { (tree.entry b).nStatus with failedValid := true }).eraseCandidate b

theorem markInvalid_entry (tree : BlockTree) (b p : BlockPtr) :
    (tree.markInvalid b).entry p =
      { tree.entry p with
        nStatus :=
          { (tree.entry p).nStatus with
            failedValid := (tree.entry p).nStatus.failedValid || p == b } } := by
  by_cases same : p = b
  · simp [markInvalid, eraseCandidate, setStatus, same]
  · have apart : (p == b) = false := beq_eq_false_iff_ne.mpr same
    simp [markInvalid, eraseCandidate, setStatus, same, apart]

theorem invalidateBlock_spec (path : tree.chainActive.IsChain fun p q => tree.pprev p = some q)
    (known : ∀ p ∈ tree.chainActive, ∀ a, tree.AncestorOrSelf a p → a ∈ tree.ancestry p)
    {disconnects : BlockPtr → Bool} (disconnected : tree.Disconnects b disconnects) {done : Bool}
    (ran : tree.invalidateBlock b disconnects = some (next, done)) :
    ∃ removed, Invalidated tree next b removed := by
  have finished : (invalidateTips b disconnects (tree.markInvalid b) tree.chainActive).2 = true := by
    refine invalidateTips_done b disconnects tree _ path _ fun p member descends => ?_
    rw [markInvalid_entry]
    exact disconnected p member (known p member b descends)
  generalize walked : invalidateTips b disconnects (tree.markInvalid b) tree.chainActive = result
    at finished
  have there : invalidateTips b disconnects (tree.markInvalid b) (tree.markInvalid b).chainActive =
      result := walked
  simp only [markInvalid] at there
  simp only [invalidateBlock, there] at ran
  obtain ⟨after, ok⟩ := result
  cases finished
  simp only at ran
  split at ran
  next => cases ran
  next some_tip =>
    cases ran
    obtain ⟨removed, rest, split, gone, undone, rfl⟩ :=
      invalidateTips_spec b disconnects tree _ path _ after walked
    have dropped := dropDescendants_dropped removed (tree.markInvalid b)
    generalize removed.foldl (dropDescendant true) (tree.markInvalid b) = left at *
    obtain ⟨offered, together, mem_offered⟩ :=
      offerAll_spec left.mapBlockIndex { left with chainActive := rest }
    rw [together]
    refine ⟨removed, dropped.mapBlockIndex, dropped.unlinked, dropped.sequence, fun p => ?_, split,
      gone, fun p member => ?_, fun empty => some_tip (List.isEmpty_iff.mpr empty), fun p => ?_⟩
    · rw [dropped.entry p, markInvalid_entry]
    · have := undone p member
      rwa [markInvalid_entry] at this
    · rw [mem_offered]
      have index : left.mapBlockIndex = tree.mapBlockIndex := dropped.mapBlockIndex
      have before : p ∈ (tree.markInvalid b).setBlockIndexCandidates ↔
          p ∈ tree.setBlockIndexCandidates ∧ p ≠ b := mem_eraseCandidate b p
      rw [dropped.candidates, before, index, and_assoc]
      rfl

end BlockTree

end CryptoYen
