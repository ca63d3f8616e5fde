import CryptoYen.Index.Activate

set_option autoImplicit false

namespace CryptoYen

namespace BlockTree

variable (tree : BlockTree)

def AncestorOrSelf (a p : BlockPtr) : Prop := Ancestry.AncestorOrSelf tree.pprev a p

def Failed (p : BlockPtr) : Prop :=
  ∃ a, tree.AncestorOrSelf a p ∧ (tree.entry a).nStatus.failedValid = true

def FailedAncestor (p : BlockPtr) : Prop := ∃ q, tree.pprev p = some q ∧ tree.Failed q

def Missing (p : BlockPtr) : Prop := ∃ a, tree.AncestorOrSelf a p ∧ tree.haveData a = false

/-- What CheckBlockIndex asserts about nChainTx, the candidates and the blocks that wait. -/
structure Checked : Prop where
  chainTx : ∀ p ∈ tree.mapBlockIndex,
    (tree.linked p = true ↔ ∀ a, tree.AncestorOrSelf a p → tree.haveData a = true)
  offered : ∀ p ∈ tree.mapBlockIndex, tree.linked p = true → ¬ tree.Failed p →
    tree.worseThanTip p = false → p ∈ tree.setBlockIndexCandidates
  candidates : ∀ p ∈ tree.setBlockIndexCandidates,
    tree.linked p = true ∧ tree.worseThanTip p = false
  waiting : ∀ p ∈ tree.mapBlockIndex, tree.haveData p = true → ¬ tree.FailedAncestor p →
    tree.Missing p → (tree.pprev p, p) ∈ tree.mapBlocksUnlinked
  unlinked : ∀ pair ∈ tree.mapBlocksUnlinked,
    pair.1 = tree.pprev pair.2 ∧ tree.haveData pair.2 = true ∧ tree.Missing pair.2

def chainTotal (p : BlockPtr) : Nat :=
  ((tree.ancestry p).map fun q => (tree.entry q).nTx).sum

/-- A block waits for its parent, which does not have all of its own transactions yet. -/
structure Waits (parent : Option BlockPtr) (p : BlockPtr) : Prop where
  known : p ∈ tree.mapBlockIndex
  parent_eq : tree.pprev p = parent
  stored : tree.haveData p = true
  unlinked : tree.linked p = false
  parent_unlinked : ∃ q, parent = some q ∧ tree.linked q = false

structure Ready (p : BlockPtr) : Prop where
  known : p ∈ tree.mapBlockIndex
  stored : tree.haveData p = true
  unlinked : tree.linked p = false
  parent_linked : tree.parentLinked p = true

structure Linked (p : BlockPtr) : Prop where
  stored : tree.haveData p = true
  counted : (tree.entry p).nChainTx = tree.chainTotal p
  numbered : (tree.entry p).nSequenceId < tree.nBlockSequenceId
  parent_linked : tree.parentLinked p = true

structure Linkage (queue : List BlockPtr) : Prop where
  leveled : Ancestry.Leveled tree.pprev (· ∈ tree.mapBlockIndex) tree.height
  workGrows : ∀ p ∈ tree.mapBlockIndex, ∀ q, tree.pprev p = some q →
    (tree.entry q).nChainWork ≤ (tree.entry p).nChainWork
  sound : ∀ p ∈ tree.mapBlockIndex, tree.linked p = false →
    (tree.entry p).nStatus.failed = false ∧ BLOCK_VALID_TREE ≤ (tree.entry p).nStatus.valid
  populated : ∀ p ∈ tree.mapBlockIndex, tree.haveData p = true → 0 < (tree.entry p).nTx
  linked : ∀ p ∈ tree.mapBlockIndex, tree.linked p = true → tree.Linked p
  waits : ∀ pair ∈ tree.mapBlocksUnlinked, tree.Waits pair.1 pair.2
  ready : ∀ p ∈ queue, tree.Ready p
  once : (tree.mapBlocksUnlinked.map Prod.snd ++ queue).Nodup
  recorded : ∀ p ∈ tree.mapBlockIndex, tree.haveData p = true → tree.linked p = false →
    p ∈ queue ∨ (tree.pprev p, p) ∈ tree.mapBlocksUnlinked

def Connected (p : BlockPtr) : Prop :=
  p ∈ tree.mapBlockIndex ∧ (p ∈ tree.chainActive ∨ (tree.entry p).nStatus.haveUndo = true)

def Unbeaten (p : BlockPtr) : Prop := ∀ other, tree.Connected other → tree.worse p other = false

structure WasConnected (p : BlockPtr) : Prop where
  linked : tree.linked p = true
  sound : (tree.entry p).nStatus.failedValid = false
  parent_connected : ∀ q, tree.pprev p = some q → tree.Connected q

structure Candidate (p : BlockPtr) : Prop where
  known : p ∈ tree.mapBlockIndex
  linked : tree.linked p = true
  as_good : ∀ active ∈ tree.chainActive, tree.worse p active = false

/-- A block of the best quality that was ever connected stays a candidate, whatever the tip is. -/
structure Selection : Prop where
  path : tree.chainActive.IsChain fun p q => tree.pprev p = some q
  activeKnown : ∀ p ∈ tree.chainActive, p ∈ tree.mapBlockIndex
  connected : ∀ p, tree.Connected p → tree.WasConnected p
  descends : ∀ p ∈ tree.mapBlockIndex, (tree.entry p).nStatus.failedChild = true → tree.Failed p
  offered : ∀ p ∈ tree.mapBlockIndex, tree.linked p = true → ¬ tree.Failed p →
    tree.Unbeaten p → p ∈ tree.setBlockIndexCandidates
  candidates : ∀ p ∈ tree.setBlockIndexCandidates, tree.Candidate p

structure Sound : Prop where
  linkage : tree.Linkage []
  selection : tree.Selection

section reading

variable {tree}

theorem worse_ranks (tree : BlockTree) :
    Ranking.Ranks tree.worse fun p => (tree.entry p).rank p :=
  fun a b => TreeEntry.workComparator_iff (tree.entry a) (tree.entry b) a b

theorem linked_iff (tree : BlockTree) (p : BlockPtr) :
    tree.linked p = true ↔ (tree.entry p).nChainTx ≠ 0 := by
  simp [linked]

theorem parentLinked_iff (tree : BlockTree) (p : BlockPtr) :
    tree.parentLinked p = true ↔ ∀ q, tree.pprev p = some q → tree.linked q = true := by
  unfold parentLinked
  cases above : tree.pprev p <;> simp

theorem mem_ancestry (p a : BlockPtr) (member : a ∈ tree.ancestry p) : tree.AncestorOrSelf a p :=
  Ancestry.mem_ancestry _ a p member

theorem failed_iff (p : BlockPtr) :
    tree.Failed p ↔
      (tree.entry p).nStatus.failedValid = true ∨ tree.FailedAncestor p := by
  constructor
  · rintro ⟨a, ancestor, failed⟩
    rcases (Ancestry.ancestorOrSelf_iff a p).mp ancestor with rfl | ⟨q, above, older⟩
    · exact Or.inl failed
    · exact Or.inr ⟨q, above, a, older, failed⟩
  · rintro (failed | ⟨q, above, a, older, failed⟩)
    · exact ⟨p, Ancestry.AncestorOrSelf.refl p, failed⟩
    · exact ⟨a, Ancestry.AncestorOrSelf.step above older, failed⟩

theorem Failed.descends {a p : BlockPtr} (failed : tree.Failed a)
    (ancestor : tree.AncestorOrSelf a p) : tree.Failed p := by
  obtain ⟨root, older, here⟩ := failed
  exact ⟨root, older.trans ancestor, here⟩

theorem Connected.ancestor (connected : ∀ p, tree.Connected p → tree.WasConnected p)
    {a p : BlockPtr} (here : tree.Connected p) (ancestor : tree.AncestorOrSelf a p) :
    tree.Connected a :=
  ancestor.closed tree.Connected (fun p was => (connected p was).parent_connected) here

theorem Connected.not_failed (connected : ∀ p, tree.Connected p → tree.WasConnected p)
    {p : BlockPtr} (here : tree.Connected p) : ¬ tree.Failed p := by
  rintro ⟨a, ancestor, failed⟩
  have sound := (connected a (here.ancestor connected ancestor)).sound
  rw [sound] at failed
  cases failed

end reading

namespace Linkage

variable {tree} {queue : List BlockPtr}

theorem linked_ancestor (linkage : tree.Linkage queue) {a p : BlockPtr}
    (known : p ∈ tree.mapBlockIndex) (here : tree.linked p = true)
    (ancestor : tree.AncestorOrSelf a p) : tree.linked a = true := by
  have both := ancestor.closed (fun p => p ∈ tree.mapBlockIndex ∧ tree.linked p = true)
    (fun p holds q above =>
      ⟨linkage.leveled.upward p holds.1 q above,
        (parentLinked_iff tree p).mp (linkage.linked p holds.1 holds.2).parent_linked q above⟩)
    ⟨known, here⟩
  exact both.2

theorem work_le (linkage : tree.Linkage queue) {a p : BlockPtr} (known : p ∈ tree.mapBlockIndex)
    (ancestor : tree.AncestorOrSelf a p) :
    (tree.entry a).nChainWork ≤ (tree.entry p).nChainWork := by
  induction ancestor with
  | refl => exact BitVec.le_refl _
  | tail older above ih =>
      have inside := linkage.leveled.known_ancestor known older
      exact BitVec.le_trans (linkage.workGrows _ inside _ above) ih

theorem mem_ancestry_iff (linkage : tree.Linkage queue) {p : BlockPtr}
    (known : p ∈ tree.mapBlockIndex) (a : BlockPtr) :
    a ∈ tree.ancestry p ↔ tree.AncestorOrSelf a p :=
  linkage.leveled.mem_ancestry_iff known a

theorem chainTotal_step (linkage : tree.Linkage queue) {p q : BlockPtr}
    (known : p ∈ tree.mapBlockIndex) (above : tree.pprev p = some q) :
    tree.chainTotal p = (tree.entry p).nTx + tree.chainTotal q := by
  unfold chainTotal ancestry
  rw [linkage.leveled.ancestry_step known above]
  simp

theorem chainTotal_root {p : BlockPtr} (root : tree.pprev p = none) :
    tree.chainTotal p = (tree.entry p).nTx := by
  simp [chainTotal, ancestry, Ancestry.ancestry, root]

theorem chainTx (linkage : tree.Linkage []) {p : BlockPtr} (known : p ∈ tree.mapBlockIndex) :
    tree.linked p = true ↔ ∀ a, tree.AncestorOrSelf a p → tree.haveData a = true := by
  constructor
  · intro here a ancestor
    have inside := linkage.leveled.known_ancestor known ancestor
    exact (linkage.linked a inside (linkage.linked_ancestor known here ancestor)).stored
  · intro stored
    generalize level : tree.height p = height
    induction height using Nat.strong_induction_on generalizing p with
    | _ height ih =>
        by_contra unlinked
        rw [Bool.not_eq_true] at unlinked
        have here := stored p (Ancestry.AncestorOrSelf.refl p)
        rcases linkage.recorded p known here unlinked with queued | waiting
        · cases queued
        · obtain ⟨q, above, parentUnlinked⟩ := (linkage.waits _ waiting).parent_unlinked
          simp only at above
          obtain ⟨inside, lower⟩ := linkage.leveled p known q above
          have parentLinked := ih (tree.height q) (by omega) inside
            (fun a older => stored a (Ancestry.AncestorOrSelf.step above older)) rfl
          rw [parentUnlinked] at parentLinked
          cases parentLinked

end Linkage

namespace Sound

variable {tree}

theorem best_connected (sound : tree.Sound) (some_connected : ∃ p, tree.Connected p) :
    ∃ p ∈ tree.setBlockIndexCandidates, tree.Connected p ∧ tree.Unbeaten p := by
  obtain ⟨first, firstConnected⟩ := some_connected
  obtain ⟨best, known, connected, top⟩ := Ranking.exists_top tree.worse_ranks tree.mapBlockIndex
    tree.Connected ⟨first, firstConnected.1, firstConnected⟩
  have unbeaten : tree.Unbeaten best := fun other here => top other here.1 here
  have linked := (sound.selection.connected best connected).linked
  have valid := connected.not_failed sound.selection.connected
  exact ⟨best, sound.selection.offered best known linked valid unbeaten, connected, unbeaten⟩

theorem unbeaten_of_last (sound : tree.Sound) {p : BlockPtr}
    (last : Ranking.last tree.worse tree.setBlockIndexCandidates = some p) : tree.Unbeaten p := by
  intro other connected
  obtain ⟨best, candidate, _, unbeaten⟩ := sound.best_connected ⟨other, connected⟩
  have ahead := Ranking.last_top tree.worse_ranks _ p last best candidate
  rw [tree.worse_ranks.false_iff] at ahead ⊢
  exact le_trans ((tree.worse_ranks.false_iff best other).mp (unbeaten other connected)) ahead

theorem last_over_ancestors (sound : tree.Sound) {p a : BlockPtr}
    (last : Ranking.last tree.worse tree.setBlockIndexCandidates = some p)
    (valid : ¬ tree.Failed p) (ancestor : tree.AncestorOrSelf a p) : tree.worse p a = false := by
  have candidate := sound.selection.candidates p (Ranking.last_mem _ p last)
  have known := sound.linkage.leveled.known_ancestor candidate.known ancestor
  have linked := sound.linkage.linked_ancestor candidate.known candidate.linked ancestor
  by_cases unbeaten : tree.Unbeaten a
  · apply Ranking.last_top tree.worse_ranks _ p last a
    exact sound.selection.offered a known linked (fun failed => valid (failed.descends ancestor))
      unbeaten
  · unfold Unbeaten at unbeaten
    push Not at unbeaten
    obtain ⟨other, connected, beaten⟩ := unbeaten
    rw [ne_eq, Bool.not_eq_false] at beaten
    have atLeast := sound.unbeaten_of_last last other connected
    rw [tree.worse_ranks.false_iff] at atLeast ⊢
    exact le_of_lt (lt_of_lt_of_le ((tree.worse_ranks a other).mp beaten) atLeast)

theorem checked (sound : tree.Sound) (settled : ∀ tip, tree.tip = some tip → tree.Unbeaten tip)
    (rooted : tree.tip = none → ∀ p, ¬ tree.Connected p) : tree.Checked := by
  obtain ⟨linkage, selection⟩ := sound
  constructor
  · exact fun p known => linkage.chainTx known
  · intro p known linked valid good
    apply selection.offered p known linked valid
    intro other connected
    cases tip : tree.tip with
    | none => exact absurd connected (rooted tip other)
    | some t =>
        simp only [worseThanTip, tip] at good
        have atLeast := settled t tip other connected
        rw [tree.worse_ranks.false_iff] at good atLeast ⊢
        exact le_trans atLeast good
  · intro p candidate
    have here := selection.candidates p candidate
    refine ⟨here.linked, ?_⟩
    cases tip : tree.tip with
    | none => simp [worseThanTip, tip]
    | some t =>
        simp only [worseThanTip, tip]
        exact here.as_good t (List.mem_of_mem_head? tip)
  · intro p known stored _ missing
    have unlinked : tree.linked p = false := by
      rw [← Bool.not_eq_true, linkage.chainTx known]
      intro all
      obtain ⟨a, ancestor, absent⟩ := missing
      rw [all a ancestor] at absent
      cases absent
    rcases linkage.recorded p known stored unlinked with queued | waiting
    · cases queued
    · exact waiting
  · intro pair waiting
    have waits := linkage.waits pair waiting
    refine ⟨waits.parent_eq.symm, waits.stored, ?_⟩
    by_contra complete
    have linked : tree.linked pair.2 = true := by
      rw [linkage.chainTx waits.known]
      intro a ancestor
      by_contra absent
      exact complete ⟨a, ancestor, Bool.eq_false_iff.mpr absent⟩
    rw [waits.unlinked] at linked
    cases linked

end Sound

end BlockTree

end CryptoYen
