import CryptoYen.Index.Reconsidered

set_option autoImplicit false

namespace CryptoYen

namespace BlockTree

def Forgiven (tree : BlockTree) (b p : BlockPtr) : Prop :=
  ∀ a ∈ tree.ancestry p, (tree.entry a).nStatus.failedValid = true → tree.onLine b a = true

instance (tree : BlockTree) (b p : BlockPtr) : Decidable (tree.Forgiven b p) :=
  inferInstanceAs (Decidable (∀ a ∈ tree.ancestry p, _))

/-- What ReconsiderBlock does not put right by itself: the marks off the line of the block, and
the blocks that it makes valid again but does not offer. -/
structure Reconsiders (tree : BlockTree) (b : BlockPtr) : Prop where
  cousins : ∀ p ∈ tree.mapBlockIndex, tree.onLine b p = false →
    (tree.entry p).nStatus.failed = true → ¬ tree.Forgiven b p
  offered : ∀ p ∈ tree.mapBlockIndex, tree.linked p = true → tree.Forgiven b p →
    p ∈ tree.setBlockIndexCandidates ∨
      (b ∈ tree.ancestry p ∧ (tree.entry p).nStatus.failed = true) ∨
      ∃ q ∈ tree.mapBlockIndex,
        (q ∈ tree.chainActive ∨ (tree.entry q).nStatus.haveUndo = true) ∧
          tree.Forgiven b q ∧ tree.worse p q = true

end BlockTree

def Veil.reconsider (veil : Veil) (tree : BlockTree) (b : BlockPtr) : Veil where
  lost p := veil.lost p && !decide (tree.Forgiven b p)
  hidden := veil.hidden

namespace BlockTree

variable {veil : Veil} {tree next : BlockTree} {b : BlockPtr}

theorem Flagged.forgiven_parent (flagged : Flagged veil tree) {p q : BlockPtr}
    (known : p ∈ tree.mapBlockIndex) (above : tree.pprev p = some q)
    (forgiven : tree.Forgiven b p) : tree.Forgiven b q := by
  intro a member
  apply forgiven a
  rw [ancestry, flagged.leveled.ancestry_step known above]
  exact List.mem_cons_of_mem p member

theorem forgiven_of_valid {p : BlockPtr} (valid : ¬ tree.Failed p) :
    tree.Forgiven b p :=
  fun a member failed => absurd ⟨a, mem_ancestry p a member, failed⟩ valid

namespace Reconsidered

variable (done : Reconsidered tree next b)

include done

theorem relabelled : Relabelled tree next := by
  intro p
  rw [done.entry]

theorem haveUndo (p : BlockPtr) :
    (next.entry p).nStatus.haveUndo = (tree.entry p).nStatus.haveUndo := by
  rw [done.entry p]
  split <;> rfl

theorem failedValid (p : BlockPtr) :
    (next.entry p).nStatus.failedValid = ((tree.entry p).nStatus.failedValid && !tree.onLine b p) := by
  rw [done.entry p]
  split
  next here => simp [BlockStatus.cleared, here]
  next off => simp [Bool.eq_false_iff.mpr off]

theorem failedChild (p : BlockPtr) :
    (next.entry p).nStatus.failedChild = ((tree.entry p).nStatus.failedChild && !tree.onLine b p) := by
  rw [done.entry p]
  split
  next here => simp [BlockStatus.cleared, here]
  next off => simp [Bool.eq_false_iff.mpr off]

theorem failed_iff (flagged : Flagged veil tree) {p : BlockPtr} (known : p ∈ tree.mapBlockIndex) :
    next.Failed p ↔ ¬ tree.Forgiven b p := by
  have pprev := done.relabelled.pprev
  unfold Failed Forgiven AncestorOrSelf
  rw [pprev]
  push Not
  refine exists_congr fun a => and_congr (flagged.leveled.mem_ancestry_iff known a).symm ?_
  rw [done.failedValid, Bool.and_eq_true, Bool.not_eq_true', Bool.eq_false_iff]

theorem connected_iff (p : BlockPtr) : next.Connected p ↔ tree.Connected p := by
  simp only [Connected, done.mapBlockIndex, done.chainActive, done.haveUndo]

theorem restatused (flagged : Flagged veil tree) (known : b ∈ tree.mapBlockIndex) :
    Restatused (tree.veiled veil) (next.veiled (veil.reconsider tree b)) := by
  refine ⟨done.mapBlockIndex, done.unlinked, done.sequence, fun p => ?_, funext fun p => ?_,
    fun p unlinked => ?_⟩
  · simp [veiled, done.entry p]
  · simp only [haveData, veiled, Veil.status, done.entry p]
    split <;> rfl
  · change tree.linked p = false at unlinked
    have seen : veil.lost p = false := by
      by_contra lost
      rw [Bool.not_eq_false] at lost
      rw [(flagged.loses p lost).2.1] at unlinked
      cases unlinked
    by_cases here : tree.onLine b p = true
    · have inside : p ∈ tree.mapBlockIndex := by
        simp only [onLine, Bool.or_eq_true, Bool.and_eq_true, decide_eq_true_eq] at here
        rcases here with descends | above
        · exact descends.1
        · exact flagged.leveled.known_ancestor known (mem_ancestry b p above)
      obtain ⟨valid, child⟩ := flagged.unlinked_unmarked inside unlinked
      simp [veiled, Veil.status, Veil.reconsider, done.entry p, here, seen, valid, child,
        BlockStatus.cleared]
    · simp [veiled, Veil.status, Veil.reconsider, done.entry p, here, seen]

section selecting

variable (flagged : Flagged veil tree)

include flagged

omit flagged in
theorem connected_forgiven (p : BlockPtr) (here : tree.Connected p)
    (forgiven : tree.Forgiven b p) : (next.veiled (veil.reconsider tree b)).Connected p := by
  obtain ⟨known, active | undo⟩ := here
  · exact ⟨done.mapBlockIndex ▸ known, .inl (done.chainActive ▸ active)⟩
  · refine ⟨done.mapBlockIndex ▸ known, .inr ?_⟩
    simp [veiled, Veil.status, Veil.reconsider, done.haveUndo, undo, forgiven]

theorem forgiven_of_connected (p : BlockPtr)
    (here : (next.veiled (veil.reconsider tree b)).Connected p) :
    tree.Connected p ∧ tree.Forgiven b p := by
  obtain ⟨known, active | undo⟩ := here
  · have before : p ∈ tree.chainActive := done.chainActive ▸ active
    exact ⟨⟨done.mapBlockIndex ▸ known, .inl before⟩,
      forgiven_of_valid (flagged.active_valid before)⟩
  · simp only [veiled, Veil.status, Veil.reconsider, done.haveUndo, Bool.and_eq_true,
      Bool.not_eq_true', Bool.and_eq_false_iff, Bool.not_eq_false', decide_eq_true_eq] at undo
    obtain ⟨left, inSight | forgiven⟩ := undo
    · have before : (tree.veiled veil).Connected p :=
        ⟨done.mapBlockIndex ▸ known, .inr (by simp [veiled, Veil.status, left, inSight])⟩
      exact ⟨⟨before.1, .inr left⟩, forgiven_of_valid (flagged.connected_valid before)⟩
    · exact ⟨⟨done.mapBlockIndex ▸ known, .inr left⟩, forgiven⟩

theorem wasConnected (known : b ∈ tree.mapBlockIndex) (p : BlockPtr)
    (here : (next.veiled (veil.reconsider tree b)).Connected p) :
    (next.veiled (veil.reconsider tree b)).WasConnected p := by
  have restatused := done.restatused flagged known
  obtain ⟨before, forgiven⟩ := done.forgiven_of_connected flagged p here
  obtain ⟨linked, parents⟩ := flagged.upward p before
  constructor
  · rw [restatused.linked]
    exact linked
  · have self : p ∈ tree.ancestry p :=
      (flagged.leveled.mem_ancestry_iff before.1 p).mpr (Ancestry.AncestorOrSelf.refl p)
    have cleared : (next.entry p).nStatus.failedValid = false := by
      rw [done.failedValid]
      cases failed : (tree.entry p).nStatus.failedValid with
      | false => rfl
      | true => simp [forgiven p self failed]
    simp [veiled, Veil.status, cleared]
  · intro q above
    rw [restatused.pprev] at above
    exact done.connected_forgiven q (parents q above)
      (flagged.forgiven_parent before.1 above forgiven)

theorem seen_failed (p : BlockPtr) (known : p ∈ tree.mapBlockIndex)
    (linked : tree.linked p = true) (failed : next.Failed p) :
    (next.veiled (veil.reconsider tree b)).Failed p := by
  obtain ⟨a, ancestor, here⟩ := failed
  have older : tree.AncestorOrSelf a p := by
    have pprev := done.relabelled.pprev
    unfold AncestorOrSelf at ancestor ⊢
    rwa [pprev] at ancestor
  have seen := flagged.seen a (flagged.linked_ancestor known linked older)
  exact ⟨a, ancestor, by simp [veiled, Veil.status, Veil.reconsider, here, seen]⟩

theorem descends (reconsiders : tree.Reconsiders b) (p : BlockPtr) (known : p ∈ tree.mapBlockIndex)
    (marked : ((next.veiled (veil.reconsider tree b)).entry p).nStatus.failedChild = true) :
    (next.veiled (veil.reconsider tree b)).Failed p := by
  simp only [veiled, Veil.status, done.failedChild, Bool.and_eq_true, Bool.not_eq_true'] at marked
  obtain ⟨⟨child, off⟩, _⟩ := marked
  have linked : tree.linked p = true := by
    by_contra unlinked
    rw [Bool.not_eq_true] at unlinked
    rw [flagged.childless p known unlinked] at child
    cases child
  have unforgiven := reconsiders.cousins p known off (by simp [BlockStatus.failed, child])
  exact done.seen_failed flagged p known linked ((done.failed_iff flagged known).mpr unforgiven)

theorem offered (reconsiders : tree.Reconsiders b) (p : BlockPtr) (known : p ∈ tree.mapBlockIndex)
    (linked : tree.linked p = true)
    (valid : ¬ (next.veiled (veil.reconsider tree b)).Failed p)
    (unbeaten : (next.veiled (veil.reconsider tree b)).Unbeaten p) :
    p ∈ next.setBlockIndexCandidates := by
  have worse : next.worse = tree.worse := done.relabelled.worse
  have forgiven : tree.Forgiven b p := by
    by_contra unforgiven
    exact valid (done.seen_failed flagged p known linked
      ((done.failed_iff flagged known).mpr unforgiven))
  rcases reconsiders.offered p known linked forgiven with
    before | ⟨descends, marked⟩ | ⟨q, inside, connected, spared, beaten⟩
  · exact done.kept p before
  · obtain ⟨t, atTip, offered⟩ :=
      done.offers p known descends marked (flagged.raised p known linked) linked
    apply offered
    have active := List.mem_of_mem_head? atTip
    have atLeast : next.worse p t = false := unbeaten t
      ⟨done.mapBlockIndex ▸ (flagged.active_connected active).1, .inl (done.chainActive ▸ active)⟩
    rw [worse, tree.worse_ranks.false_iff] at atLeast
    have apart : p ≠ t := by
      rintro rfl
      exact flagged.active_valid active (flagged.failed_of_mark known marked)
    rw [tree.worse_ranks t p]
    exact lt_of_le_of_ne atLeast fun same => apart (TreeEntry.eq_of_rank _ _ _ _ same).symm
  · have atLeast : next.worse p q = false :=
      unbeaten q (done.connected_forgiven q ⟨inside, connected⟩ spared)
    rw [worse, beaten] at atLeast
    cases atLeast

theorem candidate (known : b ∈ tree.mapBlockIndex) (p : BlockPtr)
    (member : p ∈ next.setBlockIndexCandidates) :
    (next.veiled (veil.reconsider tree b)).Candidate p := by
  have restatused := done.restatused flagged known
  rcases done.added p member with before | ⟨inside, linked, t, atTip, better⟩
  · have was := flagged.sound.selection.candidates p before
    refine ⟨done.mapBlockIndex ▸ was.known, ?_, fun active stays => ?_⟩
    · rw [restatused.linked]
      exact was.linked
    · rw [restatused.worse]
      exact was.as_good active (done.chainActive ▸ stays)
  · refine ⟨done.mapBlockIndex ▸ inside, ?_, fun active stays => ?_⟩
    · rw [restatused.linked]
      exact linked
    · change active ∈ next.chainActive at stays
      rw [done.chainActive] at stays
      have best := flagged.first_best tree.chainActive flagged.sound.selection.path
        (fun q active => active) t active atTip stays
      rw [restatused.worse]
      change tree.worse p active = false
      rw [tree.worse_ranks.false_iff] at best ⊢
      exact le_trans best (le_of_lt ((tree.worse_ranks t p).mp better))

theorem sound (reconsiders : tree.Reconsiders b) (known : b ∈ tree.mapBlockIndex) :
    (next.veiled (veil.reconsider tree b)).Sound := by
  have restatused := done.restatused flagged known
  refine ⟨restatused.linkage flagged.sound.linkage, ?_, ?_, ?_, ?_, ?_, ?_⟩
  · rw [restatused.pprev]
    change next.chainActive.IsChain _
    rw [done.chainActive]
    exact flagged.sound.selection.path
  · intro p member
    rw [restatused.mapBlockIndex]
    exact flagged.sound.selection.activeKnown p (done.chainActive ▸ member)
  · exact done.wasConnected flagged known
  · intro p inside
    rw [restatused.mapBlockIndex] at inside
    exact done.descends flagged reconsiders p inside
  · intro p inside linked
    rw [restatused.mapBlockIndex] at inside
    rw [restatused.linked] at linked
    exact done.offered flagged reconsiders p inside linked
  · exact done.candidate flagged known

end selecting

theorem flagged (flagged : Flagged veil tree) (reconsiders : tree.Reconsiders b)
    (known : b ∈ tree.mapBlockIndex) : Flagged (veil.reconsider tree b) next := by
  have pprev := done.relabelled.pprev
  have linked := done.relabelled.linked
  refine ⟨done.sound flagged reconsiders known, ?_, ?_, ?_, ?_, ?_, ?_, ?_⟩
  · rw [linked]
    exact flagged.hides
  · intro p lost
    simp only [Veil.reconsider, Bool.and_eq_true, Bool.not_eq_true', decide_eq_false_iff_not] at lost
    obtain ⟨before, unforgiven⟩ := lost
    obtain ⟨inside, here, _⟩ := flagged.loses p before
    rw [done.mapBlockIndex, linked]
    exact ⟨inside, here, (done.failed_iff flagged inside).mpr unforgiven⟩
  · intro p inside here
    rw [done.mapBlockIndex] at inside
    rw [linked] at here
    have level : (next.entry p).nStatus.valid = (tree.entry p).nStatus.valid := by
      rw [done.entry p]
      split <;> rfl
    rw [level]
    exact flagged.raised p inside here
  · intro p inside unlinked
    rw [done.mapBlockIndex] at inside
    rw [linked] at unlinked
    rw [done.failedChild, flagged.childless p inside unlinked, Bool.false_and]
  · intro p here
    rw [done.connected_iff] at here
    rw [linked, pprev]
    simp only [done.connected_iff]
    exact flagged.upward p here
  · rw [done.chainActive, pprev]
    exact flagged.rooted
  · have work (p : BlockPtr) := done.relabelled.field TreeEntry.nChainWork (fun _ _ => rfl) p
    simp only [done.mapBlockIndex, linked, pprev, work]
    exact flagged.worked

end Reconsidered

end BlockTree

end CryptoYen
