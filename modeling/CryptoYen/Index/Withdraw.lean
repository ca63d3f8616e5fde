import CryptoYen.Index.Invalidated

set_option autoImplicit false

namespace CryptoYen

def Veil.invalidate (veil : Veil) (tree : BlockTree) (b : BlockPtr) : Veil where
  lost p := veil.lost p ||
    (decide (p ∈ tree.mapBlockIndex) && tree.linked p && decide (b ∈ tree.ancestry p))
  hidden p := veil.hidden p || (p == b && !tree.linked p)

namespace BlockTree

variable {veil : Veil} {tree next : BlockTree} {b : BlockPtr} {removed : List BlockPtr}

theorem chain_upward (chain : List BlockPtr)
    (path : chain.IsChain fun p q => tree.pprev p = some q)
    (root : ∀ p ∈ chain.getLast?, tree.pprev p = none) (p : BlockPtr) (member : p ∈ chain)
    (q : BlockPtr) (above : tree.pprev p = some q) : q ∈ chain := by
  induction chain with
  | nil => cases member
  | cons first rest ih =>
      cases rest with
      | nil =>
          rw [List.mem_singleton] at member
          rw [root p (by simp [member])] at above
          cases above
      | cons second rest =>
          rw [List.isChain_cons_cons] at path
          rcases List.mem_cons.mp member with rfl | later
          · rw [path.1] at above
            cases above
            exact List.mem_cons_of_mem _ List.mem_cons_self
          · rw [List.getLast?_cons_cons] at root
            exact List.mem_cons_of_mem _ (ih path.2 root later)

theorem Flagged.off_of_undo (flagged : Flagged veil tree) (p : BlockPtr) (inside : p ∈ tree.mapBlockIndex)
    (linked : tree.linked p = true)
    (undo : ((next.veiled (veil.invalidate tree b)).entry p).nStatus.haveUndo = true) :
    ¬ tree.AncestorOrSelf b p := by
  intro ancestor
  have member : b ∈ tree.ancestry p := (flagged.leveled.mem_ancestry_iff inside b).mpr ancestor
  simp [veiled, Veil.status, Veil.invalidate, inside, linked, member] at undo

namespace Invalidated

variable (done : Invalidated tree next b removed)

include done

theorem removed_active (p : BlockPtr) (member : p ∈ removed) : p ∈ tree.chainActive := by
  rw [done.split]
  exact List.mem_append_left _ member

theorem active (p : BlockPtr) (member : p ∈ next.chainActive) : p ∈ tree.chainActive := by
  rw [done.split]
  exact List.mem_append_right _ member

theorem restatused (flagged : Flagged veil tree) (known : b ∈ tree.mapBlockIndex) :
    Restatused (tree.veiled veil) (next.veiled (veil.invalidate tree b)) := by
  refine ⟨done.mapBlockIndex, done.unlinked, done.sequence, fun p => ?_, funext fun p => ?_,
    fun p unlinked => ?_⟩
  · simp [veiled, done.entry p]
  · simp [haveData, veiled, Veil.status, done.entry p]
  · change tree.linked p = false at unlinked
    have kept : p ∉ removed := by
      intro member
      rw [flagged.active_linked (done.removed_active p member)] at unlinked
      cases unlinked
    by_cases same : p = b
    · subst same
      obtain ⟨valid, child⟩ := flagged.unlinked_unmarked known unlinked
      simp [veiled, Veil.status, Veil.invalidate, done.entry p, unlinked, kept, valid, child]
    · have apart : (p == b) = false := beq_eq_false_iff_ne.mpr same
      simp [veiled, Veil.status, Veil.invalidate, done.entry p, unlinked, kept, apart]

theorem rooted (root : ∀ p ∈ tree.chainActive.getLast?, tree.pprev p = none) (p : BlockPtr)
    (last : p ∈ next.chainActive.getLast?) : tree.pprev p = none := by
  apply root
  rw [done.split, List.getLast?_append]
  cases rest : next.chainActive.getLast? with
  | none => exact absurd (List.getLast?_eq_none_iff.mp rest) done.tip
  | some other =>
      rw [rest] at last
      exact last

section selecting

variable (flagged : Flagged veil tree)

include flagged

theorem rest_path : next.chainActive.IsChain fun p q => tree.pprev p = some q := by
  have path := flagged.sound.selection.path
  change tree.chainActive.IsChain fun p q => tree.pprev p = some q at path
  rw [done.split] at path
  exact path.right_of_append

theorem connected_before (p : BlockPtr)
    (here : (next.veiled (veil.invalidate tree b)).Connected p) : (tree.veiled veil).Connected p := by
  obtain ⟨inside, active | undo⟩ := here
  · exact flagged.active_connected (done.active p active)
  · refine ⟨done.mapBlockIndex ▸ inside, .inr ?_⟩
    simp only [veiled, Veil.status, Veil.invalidate, done.entry p, Bool.and_eq_true,
      Bool.not_eq_true', Bool.or_eq_false_iff] at undo ⊢
    exact ⟨undo.1, undo.2.1⟩

omit flagged in
theorem connected_off (p : BlockPtr) (here : (tree.veiled veil).Connected p)
    (off : ¬ tree.AncestorOrSelf b p) :
    (next.veiled (veil.invalidate tree b)).Connected p := by
  obtain ⟨inside, active | undo⟩ := here
  · change p ∈ tree.chainActive at active
    rw [done.split] at active
    rcases List.mem_append.mp active with gone | stays
    · exact absurd (done.undone p gone).2 off
    · exact ⟨done.mapBlockIndex ▸ inside, .inl stays⟩
  · have apart : b ∉ tree.ancestry p := fun member => off (mem_ancestry p b member)
    refine ⟨done.mapBlockIndex ▸ inside, .inr ?_⟩
    simp only [veiled, Veil.status, Bool.and_eq_true, Bool.not_eq_true'] at undo
    simp [veiled, Veil.status, Veil.invalidate, done.entry p, undo, apart]

theorem wasConnected (known : b ∈ tree.mapBlockIndex) (p : BlockPtr)
    (here : (next.veiled (veil.invalidate tree b)).Connected p) :
    (next.veiled (veil.invalidate tree b)).WasConnected p := by
  have restatused := done.restatused flagged known
  have before := done.connected_before flagged p here
  have was := flagged.sound.selection.connected p before
  have linked : tree.linked p = true := was.linked
  constructor
  · rw [restatused.linked]
    exact linked
  · by_cases same : p = b
    · -- the block itself is neither active any more nor is its undo data in sight
      subst same
      obtain ⟨_, active | undo⟩ := here
      · exact absurd active done.gone
      · exact absurd (Ancestry.AncestorOrSelf.refl p) (flagged.off_of_undo p before.1 linked undo)
    · have sound := was.sound
      have apart : (p == b) = false := beq_eq_false_iff_ne.mpr same
      simpa [veiled, Veil.status, Veil.invalidate, done.entry p, apart] using sound
  · intro q above
    rw [restatused.pprev] at above
    obtain ⟨_, active | undo⟩ := here
    · have stays := chain_upward next.chainActive (done.rest_path flagged)
        (done.rooted flagged.rooted) p active q above
      have inside := (was.parent_connected q above).1
      exact ⟨done.mapBlockIndex ▸ inside, .inl stays⟩
    · apply done.connected_off q (was.parent_connected q above)
      exact fun ancestor => flagged.off_of_undo p before.1 linked undo
        (Ancestry.AncestorOrSelf.step above ancestor)

theorem descends (known : b ∈ tree.mapBlockIndex) (p : BlockPtr) (inside : p ∈ tree.mapBlockIndex)
    (marked : ((next.veiled (veil.invalidate tree b)).entry p).nStatus.failedChild = true) :
    (next.veiled (veil.invalidate tree b)).Failed p := by
  have restatused := done.restatused flagged known
  have failing (a : BlockPtr) (failed : ((tree.veiled veil).entry a).nStatus.failedValid = true ∨
      a = b ∧ tree.linked b = true) :
      ((next.veiled (veil.invalidate tree b)).entry a).nStatus.failedValid = true := by
    rcases failed with before | ⟨rfl, linked⟩
    · by_cases same : a = b ∧ tree.linked a = false
      · obtain ⟨rfl, unlinked⟩ := same
        have unmarked := (flagged.unlinked_unmarked known unlinked).1
        simp only [veiled, Veil.status] at before
        rw [before] at unmarked
        cases unmarked
      · simp only [veiled, Veil.status, Bool.and_eq_true, Bool.not_eq_true'] at before
        rw [not_and_or, Bool.not_eq_false] at same
        simpa [veiled, Veil.status, Veil.invalidate, done.entry a, before] using same
    · have seen := flagged.seen a linked
      simp [veiled, Veil.status, Veil.invalidate, done.entry a, linked, seen]
  by_cases gone : p ∈ removed
  · have ancestor := (done.undone p gone).2
    have linked := flagged.linked_ancestor inside
      (flagged.active_linked (done.removed_active p gone)) ancestor
    exact ⟨b, (restatused.ancestorOrSelf b p).mpr ancestor, failing b (.inr ⟨rfl, linked⟩)⟩
  · have before : ((tree.veiled veil).entry p).nStatus.failedChild = true := by
      simp only [veiled, Veil.status, Veil.invalidate, done.entry p, gone, decide_false,
        Bool.or_false, Bool.and_eq_true, Bool.not_eq_true', Bool.or_eq_false_iff] at marked ⊢
      exact ⟨marked.1, marked.2.1⟩
    obtain ⟨a, ancestor, failed⟩ := flagged.sound.selection.descends p inside before
    exact ⟨a, (restatused.ancestorOrSelf a p).mpr ancestor, failing a (.inl failed)⟩

theorem offered (known : b ∈ tree.mapBlockIndex) (p : BlockPtr) (inside : p ∈ tree.mapBlockIndex)
    (linked : tree.linked p = true)
    (valid : ¬ (next.veiled (veil.invalidate tree b)).Failed p)
    (unbeaten : (next.veiled (veil.invalidate tree b)).Unbeaten p) :
    p ∈ next.setBlockIndexCandidates := by
  have seen : (veil.invalidate tree b).hidden p = false := by
    simp [Veil.invalidate, flagged.seen p linked, linked]
  have self : (next.entry p).nStatus.failedValid = false := by
    by_contra failed
    rw [Bool.not_eq_false] at failed
    refine valid ⟨p, Ancestry.AncestorOrSelf.refl p, ?_⟩
    simp [veiled, Veil.status, failed, seen]
  have child : (next.entry p).nStatus.failedChild = false := by
    by_contra failed
    rw [Bool.not_eq_false] at failed
    refine valid (done.descends flagged known p inside ?_)
    simp [veiled, Veil.status, failed, seen]
  have raised := flagged.raised p inside linked
  have level : (next.entry p).nStatus.valid = (tree.entry p).nStatus.valid := by rw [done.entry p]
  have good : next.worseThanTip p = false := by
    cases atTip : next.tip with
    | none => simp [worseThanTip, atTip]
    | some t =>
        have active := List.mem_of_mem_head? atTip
        have inside := (flagged.active_connected (done.active t active)).1
        simp only [worseThanTip, atTip]
        exact unbeaten t ⟨done.mapBlockIndex ▸ inside, .inl active⟩
  refine (done.candidates p).mpr (.inr ⟨inside, ?_, ?_, good⟩)
  · simp [BlockStatus.isValid, BlockStatus.failed, self, child, level, raised]
  · have same : next.linked = tree.linked := (done.restatused flagged known).linked
    rw [same]
    exact linked

theorem candidate (known : b ∈ tree.mapBlockIndex) (p : BlockPtr)
    (member : p ∈ next.setBlockIndexCandidates) :
    (next.veiled (veil.invalidate tree b)).Candidate p := by
  have restatused := done.restatused flagged known
  have worse : next.worse = tree.worse := restatused.worse
  rcases (done.candidates p).mp member with ⟨before, _⟩ | ⟨inside, _, linked, good⟩
  · have was := flagged.sound.selection.candidates p before
    refine ⟨done.mapBlockIndex ▸ was.known, ?_, fun active stays => ?_⟩
    · rw [restatused.linked]
      exact was.linked
    · rw [restatused.worse]
      exact was.as_good active (done.active active stays)
  · refine ⟨done.mapBlockIndex ▸ inside, linked, fun active stays => ?_⟩
    cases atTip : next.tip with
    | none => exact absurd (List.head?_eq_none_iff.mp atTip) done.tip
    | some t =>
        simp only [worseThanTip, atTip] at good
        have best := flagged.first_best next.chainActive (done.rest_path flagged)
          (fun q => done.active q) t active atTip stays
        change next.worse p active = false
        rw [worse, tree.worse_ranks.false_iff] at good ⊢
        rw [tree.worse_ranks.false_iff] at best
        exact le_trans best good

theorem sound (known : b ∈ tree.mapBlockIndex) :
    (next.veiled (veil.invalidate tree b)).Sound := by
  have restatused := done.restatused flagged known
  refine ⟨restatused.linkage flagged.sound.linkage, ?_, ?_, ?_, ?_, ?_, ?_⟩
  · rw [restatused.pprev]
    exact done.rest_path flagged
  · intro p member
    rw [restatused.mapBlockIndex]
    exact flagged.sound.selection.activeKnown p (done.active p member)
  · exact done.wasConnected flagged known
  · intro p inside
    rw [restatused.mapBlockIndex] at inside
    exact done.descends flagged known p inside
  · intro p inside linked
    rw [restatused.mapBlockIndex] at inside
    rw [restatused.linked] at linked
    exact done.offered flagged known p inside linked
  · exact done.candidate flagged known

end selecting

theorem flagged (flagged : Flagged veil tree)
    (known : b ∈ tree.mapBlockIndex) : Flagged (veil.invalidate tree b) next := by
  have restatused := done.restatused flagged known
  have pprev : next.pprev = tree.pprev := restatused.pprev
  have linked : next.linked = tree.linked := restatused.linked
  have failed (p : BlockPtr) (before : tree.Failed p) : next.Failed p := by
    obtain ⟨a, ancestor, here⟩ := before
    exact ⟨a, (restatused.ancestorOrSelf a p).mpr ancestor, by simp [done.entry a, here]⟩
  have undo (p : BlockPtr) :
      (next.entry p).nStatus.haveUndo = (tree.entry p).nStatus.haveUndo := by rw [done.entry p]
  refine ⟨done.sound flagged known, ?_, ?_, ?_, ?_, ?_, ?_, ?_⟩
  · intro p hidden
    rw [linked]
    simp only [Veil.invalidate, Bool.or_eq_true, Bool.and_eq_true, Bool.not_eq_true'] at hidden
    rcases hidden with before | ⟨_, unlinked⟩
    · exact flagged.hides p before
    · exact unlinked
  · intro p lost
    rw [done.mapBlockIndex, linked]
    simp only [Veil.invalidate, Bool.or_eq_true, Bool.and_eq_true, decide_eq_true_eq] at lost
    rcases lost with before | ⟨⟨inside, here⟩, member⟩
    · exact (flagged.loses p before).imp_right (And.imp_right (failed p))
    · refine ⟨inside, here, b, (restatused.ancestorOrSelf b p).mpr (mem_ancestry p b member), ?_⟩
      simp [done.entry b]
  · intro p inside here
    rw [done.mapBlockIndex] at inside
    rw [linked] at here
    rw [done.entry p]
    exact flagged.raised p inside here
  · intro p inside unlinked
    rw [done.mapBlockIndex] at inside
    rw [linked] at unlinked
    have kept : p ∉ removed := by
      intro member
      rw [flagged.active_linked (done.removed_active p member)] at unlinked
      cases unlinked
    simpa [done.entry p, kept] using flagged.childless p inside unlinked
  · intro p here
    have before : tree.Connected p :=
      ⟨done.mapBlockIndex ▸ here.1, here.2.imp (done.active p) fun left => undo p ▸ left⟩
    rw [linked, pprev]
    refine (flagged.upward p before).imp_right fun parents q above => ?_
    obtain ⟨inside, active | left⟩ := parents q above
    · rw [done.split] at active
      rcases List.mem_append.mp active with gone | stays
      · exact ⟨done.mapBlockIndex ▸ inside, .inr ((undo q).trans (done.undone q gone).1)⟩
      · exact ⟨done.mapBlockIndex ▸ inside, .inl stays⟩
    · exact ⟨done.mapBlockIndex ▸ inside, .inr ((undo q).trans left)⟩
  · rw [pprev]
    exact done.rooted flagged.rooted
  · have work (p : BlockPtr) : (next.entry p).nChainWork = (tree.entry p).nChainWork := by
      rw [done.entry p]
    simp only [done.mapBlockIndex, linked, pprev, work]
    exact flagged.worked

end Invalidated

end BlockTree

end CryptoYen
