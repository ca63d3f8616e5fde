import CryptoYen.Index.Invalidate
import CryptoYen.Index.Veil

set_option autoImplicit false

namespace CryptoYen

namespace BlockTree

variable {tree next : BlockTree} {veil : Veil}

/-- What holds of a tree while blocks are invalidated and reconsidered: it is sound once the undo
data of failed blocks and the failure marks of unlinked ones are out of sight. -/
structure Flagged (veil : Veil) (tree : BlockTree) : Prop where
  sound : (tree.veiled veil).Sound
  hides : ∀ p, veil.hidden p = true → tree.linked p = false
  loses : ∀ p, veil.lost p = true →
    p ∈ tree.mapBlockIndex ∧ tree.linked p = true ∧ tree.Failed p
  raised : ∀ p ∈ tree.mapBlockIndex, tree.linked p = true →
    BLOCK_VALID_TRANSACTIONS ≤ (tree.entry p).nStatus.valid
  childless : ∀ p ∈ tree.mapBlockIndex, tree.linked p = false →
    (tree.entry p).nStatus.failedChild = false
  upward : ∀ p, tree.Connected p →
    tree.linked p = true ∧ ∀ q, tree.pprev p = some q → tree.Connected q
  rooted : ∀ p ∈ tree.chainActive.getLast?, tree.pprev p = none
  worked : ∀ p ∈ tree.mapBlockIndex, tree.linked p = true → ∀ q, tree.pprev p = some q →
    (tree.entry q).nChainWork < (tree.entry p).nChainWork

theorem veiled_failed (p : BlockPtr) (failed : (tree.veiled veil).Failed p) : tree.Failed p := by
  obtain ⟨a, ancestor, here⟩ := failed
  simp only [veiled, Veil.status, Bool.and_eq_true] at here
  exact ⟨a, ancestor, here.1⟩

theorem inSight_of_linked (hides : ∀ p, veil.hidden p = true → tree.linked p = false)
    (p : BlockPtr) (linked : tree.linked p = true) : veil.hidden p = false := by
  by_contra hidden
  rw [Bool.not_eq_false] at hidden
  have unlinked := hides p hidden
  rw [linked] at unlinked
  cases unlinked

theorem failed_veiled (linkage : (tree.veiled veil).Linkage [])
    (hides : ∀ p, veil.hidden p = true → tree.linked p = false) {p : BlockPtr}
    (known : p ∈ tree.mapBlockIndex) (linked : tree.linked p = true) (failed : tree.Failed p) :
    (tree.veiled veil).Failed p := by
  obtain ⟨a, ancestor, here⟩ := failed
  have seen := inSight_of_linked hides a (linkage.linked_ancestor known linked ancestor)
  exact ⟨a, ancestor, by simp [veiled, Veil.status, here, seen]⟩

namespace Flagged

variable (flagged : Flagged veil tree)

include flagged

theorem leveled : Ancestry.Leveled tree.pprev (· ∈ tree.mapBlockIndex) tree.height :=
  flagged.sound.linkage.leveled

theorem linked_ancestor {a p : BlockPtr} (known : p ∈ tree.mapBlockIndex)
    (linked : tree.linked p = true) (ancestor : tree.AncestorOrSelf a p) : tree.linked a = true :=
  flagged.sound.linkage.linked_ancestor known linked ancestor

theorem seen (p : BlockPtr) (linked : tree.linked p = true) : veil.hidden p = false :=
  inSight_of_linked flagged.hides p linked

theorem veiled_failed_iff {p : BlockPtr} (known : p ∈ tree.mapBlockIndex)
    (linked : tree.linked p = true) : (tree.veiled veil).Failed p ↔ tree.Failed p :=
  ⟨veiled_failed p, failed_veiled flagged.sound.linkage flagged.hides known linked⟩

theorem failed_of_mark {p : BlockPtr} (known : p ∈ tree.mapBlockIndex)
    (marked : (tree.entry p).nStatus.failed = true) : tree.Failed p := by
  rw [BlockStatus.failed, Bool.or_eq_true] at marked
  rcases marked with valid | child
  · exact ⟨p, Ancestry.AncestorOrSelf.refl p, valid⟩
  · cases linked : tree.linked p with
    | false =>
        rw [flagged.childless p known linked] at child
        cases child
    | true =>
        refine veiled_failed p (flagged.sound.selection.descends p known ?_)
        simp [veiled, Veil.status, child, flagged.seen p linked]

theorem connected_valid {p : BlockPtr} (here : (tree.veiled veil).Connected p) :
    ¬ tree.Failed p := by
  have linked : tree.linked p = true := (flagged.sound.selection.connected p here).linked
  rw [← flagged.veiled_failed_iff here.1 linked]
  exact here.not_failed flagged.sound.selection.connected

theorem active_connected {p : BlockPtr} (active : p ∈ tree.chainActive) :
    (tree.veiled veil).Connected p :=
  ⟨flagged.sound.selection.activeKnown p active, .inl active⟩

theorem active_valid {p : BlockPtr} (active : p ∈ tree.chainActive) : ¬ tree.Failed p :=
  flagged.connected_valid (flagged.active_connected active)

theorem active_linked {p : BlockPtr} (active : p ∈ tree.chainActive) : tree.linked p = true :=
  (flagged.sound.selection.connected p (flagged.active_connected active)).linked

theorem ancestor_rank {a p : BlockPtr} (known : p ∈ tree.mapBlockIndex)
    (linked : tree.linked p = true) (ancestor : tree.AncestorOrSelf a p) :
    (tree.entry a).rank a ≤ (tree.entry p).rank p := by
  induction ancestor with
  | refl => exact le_refl _
  | tail older above ih =>
      have inside := flagged.leveled.known_ancestor known older
      have here := flagged.linked_ancestor known linked older
      have less := flagged.worked _ inside here _ above
      exact le_trans (le_of_lt (TreeEntry.rank_lt_of_work _ _ _ _ less)) ih

theorem first_best (chain : List BlockPtr) (path : chain.IsChain fun p q => tree.pprev p = some q)
    (active : ∀ p ∈ chain, p ∈ tree.chainActive) (first p : BlockPtr)
    (atHead : chain.head? = some first) (member : p ∈ chain) : tree.worse first p = false := by
  have here := active first (List.mem_of_mem_head? atHead)
  rw [tree.worse_ranks.false_iff]
  exact flagged.ancestor_rank (flagged.active_connected here).1 (flagged.active_linked here)
    (chain_descends chain path p first atHead member)

theorem unlinked_unmarked {p : BlockPtr} (known : p ∈ tree.mapBlockIndex)
    (unlinked : tree.linked p = false) :
    ((tree.entry p).nStatus.failedValid && !veil.hidden p) = false ∧
      ((tree.entry p).nStatus.failedChild && !veil.hidden p) = false := by
  have unmarked := (flagged.sound.linkage.sound p known unlinked).1
  simpa [BlockStatus.failed, veiled, Veil.status] using unmarked

end Flagged

section rounds

variable [BlockHasher] {params : CChainParams}

/-- No block that was connected once and has not failed since is found invalid. -/
def Retries (tree : BlockTree) (connects : BlockPtr → TipOutcome) : Prop :=
  ∀ p, (tree.entry p).nStatus.haveUndo = true → ¬ (p ∈ tree.mapBlockIndex ∧ tree.Failed p) →
    connects p ≠ .invalid false

omit [BlockHasher] in
theorem Flagged.reconnects (flagged : Flagged veil tree) {connects : BlockPtr → TipOutcome}
    (retries : tree.Retries connects) : (tree.veiled veil).Reconnects connects := by
  intro p undo
  have seen : (tree.entry p).nStatus.haveUndo = true := by
    simp only [veiled, Veil.status, Bool.and_eq_true] at undo
    exact undo.1
  refine retries p seen ?_
  rintro ⟨known, failed⟩
  exact flagged.connected_valid ⟨known, .inr undo⟩ failed

theorem Flagged.round (flagged : Flagged veil tree) (verdicts : Verdicts)
    (retries : tree.Retries verdicts.connects) (ended : RoundEnd)
    (ran : tree.activateBestChainRound params verdicts = some (next, ended)) :
    Flagged veil next ∧ (ended = .returned true → (next.veiled veil).Checked) := by
  obtain ⟨commutes, kept⟩ := activateBestChainRound_veiled flagged.sound flagged.hides
    (fun p lost => by
      obtain ⟨known, linked, failed⟩ := flagged.loses p lost
      exact (flagged.veiled_failed_iff known linked).mpr failed) verdicts ended ran
  obtain ⟨sound, checked⟩ := activateBestChainRound_spec flagged.sound verdicts
    (flagged.reconnects retries) ended commutes
  refine ⟨⟨sound, ?_, ?_, ?_, ?_, ?_, kept.rooted flagged.rooted, ?_⟩, checked⟩
  · intro p hidden
    rw [kept.linked]
    exact flagged.hides p hidden
  · intro p lost
    rw [kept.mapBlockIndex, kept.linked]
    exact (flagged.loses p lost).imp_right (And.imp_right (kept.failed p))
  · intro p known linked
    rw [kept.mapBlockIndex] at known
    rw [kept.linked] at linked
    exact (flagged.raised p known linked).trans (kept.valid p)
  · intro p known unlinked
    rw [kept.mapBlockIndex] at known
    rw [kept.linked] at unlinked
    rw [kept.untouched p unlinked]
    exact flagged.childless p known unlinked
  · intro p here
    by_cases visible : (next.veiled veil).Connected p
    · have was := sound.selection.connected p visible
      refine ⟨was.linked, fun q above => ?_⟩
      obtain ⟨known, active | undo⟩ := was.parent_connected q above
      · exact ⟨known, .inl active⟩
      · simp only [veiled, Veil.status, Bool.and_eq_true] at undo
        exact ⟨known, .inr undo.1⟩
    · -- the undo data of a block that is out of sight was there before
      obtain ⟨known, active | undo⟩ := here
      · exact absurd ⟨known, .inl active⟩ visible
      · have lost : veil.lost p = true := by
          by_contra inSight
          rw [Bool.not_eq_true] at inSight
          refine visible ⟨known, .inr ?_⟩
          simp [veiled, Veil.status, undo, inSight]
        have before : tree.Connected p :=
          ⟨kept.mapBlockIndex ▸ known, .inr (kept.lost p lost undo)⟩
        rw [kept.linked, kept.pprev]
        exact ⟨(flagged.upward p before).1, fun q above =>
          kept.connected q ((flagged.upward p before).2 q above)⟩
  · intro p known linked q above
    rw [kept.mapBlockIndex] at known
    rw [kept.linked] at linked
    rw [kept.pprev] at above
    have work (p : BlockPtr) := kept.field TreeEntry.nChainWork (fun _ _ => rfl) p
    rw [work, work]
    exact flagged.worked p known linked q above

end rounds

end BlockTree

end CryptoYen
