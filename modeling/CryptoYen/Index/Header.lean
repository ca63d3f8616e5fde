import Mathlib.Data.List.Chain
import CryptoYen.Index.Extension

set_option autoImplicit false

namespace CryptoYen

namespace BlockTree

variable {tree : BlockTree}

theorem find_known (hash : Uint256) (p : BlockPtr) (found : tree.find hash = some p) :
    p ∈ tree.mapBlockIndex :=
  List.mem_of_find?_eq_some found

structure Sprouts (tree next : BlockTree) (pindexNew : BlockPtr) : Prop where
  fresh : pindexNew ∉ tree.mapBlockIndex
  mapBlockIndex : next.mapBlockIndex = pindexNew :: tree.mapBlockIndex
  chainActive : next.chainActive = tree.chainActive
  candidates : next.setBlockIndexCandidates = tree.setBlockIndexCandidates
  unlinked : next.mapBlocksUnlinked = tree.mapBlocksUnlinked
  sequence : next.nBlockSequenceId = tree.nBlockSequenceId
  kept : ∀ p ∈ tree.mapBlockIndex, next.entry p = tree.entry p
  absent : next.haveData pindexNew = false
  loose : next.linked pindexNew = false
  status : (next.entry pindexNew).nStatus = BlockStatus.unknown.raiseValidity BLOCK_VALID_TREE
  parent : ∀ q, next.pprev pindexNew = some q →
    q ∈ tree.mapBlockIndex ∧ next.height pindexNew = tree.height q + 1 ∧
      (tree.entry q).nChainWork ≤ (next.entry pindexNew).nChainWork

namespace Sprouts

variable {next : BlockTree} {pindexNew : BlockPtr}

theorem pprev_eq (sprouts : Sprouts tree next pindexNew) (p : BlockPtr)
    (known : p ∈ tree.mapBlockIndex) : next.pprev p = tree.pprev p := by
  simp only [pprev, sprouts.kept p known]

theorem linked_eq (sprouts : Sprouts tree next pindexNew) (p : BlockPtr)
    (known : p ∈ tree.mapBlockIndex) : next.linked p = tree.linked p := by
  simp only [linked, sprouts.kept p known]

theorem haveData_eq (sprouts : Sprouts tree next pindexNew) (p : BlockPtr)
    (known : p ∈ tree.mapBlockIndex) : next.haveData p = tree.haveData p := by
  simp only [haveData, sprouts.kept p known]

theorem worse_eq (sprouts : Sprouts tree next pindexNew) (a b : BlockPtr)
    (first : a ∈ tree.mapBlockIndex) (second : b ∈ tree.mapBlockIndex) :
    next.worse a b = tree.worse a b := by
  simp only [worse, sprouts.kept a first, sprouts.kept b second]

theorem parentLinked_of (sprouts : Sprouts tree next pindexNew)
    (leveled : Ancestry.Leveled tree.pprev (· ∈ tree.mapBlockIndex) tree.height) (p : BlockPtr)
    (known : p ∈ tree.mapBlockIndex) (linked : tree.parentLinked p = true) :
    next.parentLinked p = true := by
  rw [parentLinked_iff] at linked ⊢
  intro q above
  rw [sprouts.pprev_eq p known] at above
  rw [sprouts.linked_eq q (leveled.upward p known q above)]
  exact linked q above

theorem chainTotal_eq (sprouts : Sprouts tree next pindexNew)
    (leveled : Ancestry.Leveled tree.pprev (· ∈ tree.mapBlockIndex) tree.height) (p : BlockPtr)
    (known : p ∈ tree.mapBlockIndex) : next.chainTotal p = tree.chainTotal p := by
  have walk : next.ancestry p = tree.ancestry p := by
    have same : next.height p = tree.height p := by simp only [height, sprouts.kept p known]
    unfold ancestry
    rw [same]
    exact Ancestry.ancestry_congr _ leveled.upward sprouts.pprev_eq _ p known
  unfold chainTotal
  rw [walk]
  congr 1
  apply List.map_congr_left
  intro a member
  rw [sprouts.kept a (leveled.known_ancestor known (mem_ancestry p a member))]

theorem failed_iff (sprouts : Sprouts tree next pindexNew)
    (leveled : Ancestry.Leveled tree.pprev (· ∈ tree.mapBlockIndex) tree.height) (p : BlockPtr)
    (known : p ∈ tree.mapBlockIndex) : next.Failed p ↔ tree.Failed p := by
  have upward (x : BlockPtr) (inside : x ∈ tree.mapBlockIndex) (q : BlockPtr)
      (above : next.pprev x = some q) : q ∈ tree.mapBlockIndex := by
    rw [sprouts.pprev_eq x inside] at above
    exact leveled.upward x inside q above
  constructor
  · rintro ⟨a, ancestor, failed⟩
    have inside := ancestor.closed (· ∈ tree.mapBlockIndex) upward known
    rw [sprouts.kept a inside] at failed
    exact ⟨a, ancestor.congr _ upward (fun x here => (sprouts.pprev_eq x here).symm) known, failed⟩
  · rintro ⟨a, ancestor, failed⟩
    rw [← sprouts.kept a (leveled.known_ancestor known ancestor)] at failed
    exact ⟨a, ancestor.congr _ leveled.upward sprouts.pprev_eq known, failed⟩

theorem split (sprouts : Sprouts tree next pindexNew) (p : BlockPtr)
    (known : p ∈ next.mapBlockIndex) : p = pindexNew ∨ p ∈ tree.mapBlockIndex := by
  rw [sprouts.mapBlockIndex] at known
  exact List.mem_cons.mp known

theorem grown (sprouts : Sprouts tree next pindexNew) (p : BlockPtr)
    (known : p ∈ tree.mapBlockIndex) : p ∈ next.mapBlockIndex := by
  rw [sprouts.mapBlockIndex]
  exact List.mem_cons_of_mem pindexNew known

theorem leveled (sprouts : Sprouts tree next pindexNew)
    (leveled : Ancestry.Leveled tree.pprev (· ∈ tree.mapBlockIndex) tree.height) :
    Ancestry.Leveled next.pprev (· ∈ next.mapBlockIndex) next.height := by
  intro p known q above
  rcases sprouts.split p known with rfl | inside
  · obtain ⟨parentKnown, level, _⟩ := sprouts.parent q above
    refine ⟨sprouts.grown q parentKnown, ?_⟩
    rw [level]
    simp only [height, sprouts.kept q parentKnown]
  · rw [sprouts.pprev_eq p inside] at above
    obtain ⟨parentKnown, level⟩ := leveled p inside q above
    refine ⟨sprouts.grown q parentKnown, ?_⟩
    simp only [height, sprouts.kept p inside, sprouts.kept q parentKnown]
    exact level

theorem workGrows (sprouts : Sprouts tree next pindexNew) (linkage : tree.Linkage [])
    (p : BlockPtr) (known : p ∈ next.mapBlockIndex) (q : BlockPtr)
    (above : next.pprev p = some q) :
    (next.entry q).nChainWork ≤ (next.entry p).nChainWork := by
  rcases sprouts.split p known with rfl | inside
  · obtain ⟨parentKnown, _, grows⟩ := sprouts.parent q above
    rw [sprouts.kept q parentKnown]
    exact grows
  · rw [sprouts.pprev_eq p inside] at above
    rw [sprouts.kept p inside, sprouts.kept q (linkage.leveled.upward p inside q above)]
    exact linkage.workGrows p inside q above

theorem isLinked (sprouts : Sprouts tree next pindexNew) (linkage : tree.Linkage [])
    (p : BlockPtr) (inside : p ∈ tree.mapBlockIndex) (linked : tree.linked p = true) :
    next.Linked p := by
  have leveled := linkage.leveled
  have was := linkage.linked p inside linked
  constructor
  · rw [sprouts.haveData_eq p inside]
    exact was.stored
  · rw [sprouts.chainTotal_eq leveled p inside, sprouts.kept p inside]
    exact was.counted
  · rw [sprouts.kept p inside, sprouts.sequence]
    exact was.numbered
  · exact sprouts.parentLinked_of leveled p inside was.parent_linked

theorem waits (sprouts : Sprouts tree next pindexNew)
    (leveled : Ancestry.Leveled tree.pprev (· ∈ tree.mapBlockIndex) tree.height)
    (parent : Option BlockPtr) (p : BlockPtr) (was : tree.Waits parent p) :
    next.Waits parent p := by
  obtain ⟨q, first, parentUnlinked⟩ := was.parent_unlinked
  have above : tree.pprev p = some q := was.parent_eq.trans first
  constructor
  · exact sprouts.grown p was.known
  · rw [sprouts.pprev_eq p was.known]
    exact was.parent_eq
  · rw [sprouts.haveData_eq p was.known]
    exact was.stored
  · rw [sprouts.linked_eq p was.known]
    exact was.unlinked
  · refine ⟨q, first, ?_⟩
    rw [sprouts.linked_eq q (leveled.upward p was.known q above)]
    exact parentUnlinked

theorem linkage (sprouts : Sprouts tree next pindexNew) (linkage : tree.Linkage []) :
    next.Linkage [] := by
  constructor
  · exact sprouts.leveled linkage.leveled
  · exact sprouts.workGrows linkage
  · intro p known unlinked
    rcases sprouts.split p known with rfl | inside
    · rw [sprouts.status]
      exact ⟨by rfl, by decide⟩
    · rw [sprouts.linked_eq p inside] at unlinked
      rw [sprouts.kept p inside]
      exact linkage.sound p inside unlinked
  · intro p known stored
    rcases sprouts.split p known with rfl | inside
    · rw [sprouts.absent] at stored
      cases stored
    · rw [sprouts.haveData_eq p inside] at stored
      rw [sprouts.kept p inside]
      exact linkage.populated p inside stored
  · intro p known linked
    rcases sprouts.split p known with rfl | inside
    · rw [sprouts.loose] at linked
      cases linked
    · rw [sprouts.linked_eq p inside] at linked
      exact sprouts.isLinked linkage p inside linked
  · intro pair member
    rw [sprouts.unlinked] at member
    exact sprouts.waits linkage.leveled pair.1 pair.2 (linkage.waits pair member)
  · intro p queued
    cases queued
  · rw [sprouts.unlinked]
    exact linkage.once
  · intro p known stored unlinked
    rcases sprouts.split p known with rfl | inside
    · rw [sprouts.absent] at stored
      cases stored
    · rw [sprouts.haveData_eq p inside] at stored
      rw [sprouts.linked_eq p inside] at unlinked
      rw [sprouts.pprev_eq p inside, sprouts.unlinked]
      exact linkage.recorded p inside stored unlinked

theorem connected_iff (sprouts : Sprouts tree next pindexNew)
    (activeKnown : ∀ p ∈ tree.chainActive, p ∈ tree.mapBlockIndex) (p : BlockPtr) :
    next.Connected p ↔ tree.Connected p := by
  unfold Connected
  rw [sprouts.mapBlockIndex, sprouts.chainActive]
  by_cases same : p = pindexNew
  · subst same
    have undone : (next.entry p).nStatus.haveUndo = false := by
      rw [sprouts.status]
      rfl
    have inactive : p ∉ tree.chainActive := fun member => sprouts.fresh (activeKnown p member)
    simp [undone, inactive, sprouts.fresh]
  · constructor
    · rintro ⟨known, here⟩
      have inside := (List.mem_cons.mp known).resolve_left same
      rw [sprouts.kept p inside] at here
      exact ⟨inside, here⟩
    · rintro ⟨inside, here⟩
      rw [sprouts.kept p inside]
      exact ⟨List.mem_cons_of_mem pindexNew inside, here⟩

theorem selection (sprouts : Sprouts tree next pindexNew) (sound : tree.Sound) :
    next.Selection := by
  obtain ⟨linkage, selection⟩ := sound
  have leveled := linkage.leveled
  have connected_iff := sprouts.connected_iff selection.activeKnown
  constructor
  · rw [sprouts.chainActive]
    apply List.IsChain.imp_of_mem_imp _ selection.path
    intro p q member _ above
    rw [sprouts.pprev_eq p (selection.activeKnown p member)]
    exact above
  · intro p member
    rw [sprouts.chainActive] at member
    exact sprouts.grown p (selection.activeKnown p member)
  · intro p here
    rw [connected_iff] at here
    have was := selection.connected p here
    constructor
    · rw [sprouts.linked_eq p here.1]
      exact was.linked
    · rw [sprouts.kept p here.1]
      exact was.sound
    · intro q above
      rw [sprouts.pprev_eq p here.1] at above
      exact (connected_iff q).mpr (was.parent_connected q above)
  · intro p known failed
    rcases sprouts.split p known with rfl | inside
    · rw [sprouts.status] at failed
      cases failed
    · rw [sprouts.kept p inside] at failed
      exact (sprouts.failed_iff leveled p inside).mpr (selection.descends p inside failed)
  · intro p known linked valid unbeaten
    rcases sprouts.split p known with rfl | inside
    · rw [sprouts.loose] at linked
      cases linked
    · rw [sprouts.linked_eq p inside] at linked
      rw [sprouts.failed_iff leveled p inside] at valid
      rw [sprouts.candidates]
      apply selection.offered p inside linked valid
      intro other connected
      rw [← sprouts.worse_eq p other inside connected.1]
      exact unbeaten other ((connected_iff other).mpr connected)
  · intro p member
    rw [sprouts.candidates] at member
    have was := selection.candidates p member
    constructor
    · exact sprouts.grown p was.known
    · rw [sprouts.linked_eq p was.known]
      exact was.linked
    · intro active activeMember
      rw [sprouts.chainActive] at activeMember
      rw [sprouts.worse_eq p active was.known (selection.activeKnown active activeMember)]
      exact was.as_good active activeMember

end Sprouts

variable [BlockHasher]

/-- The chain work of the new block stays below 2^256. -/
def WorkFits (tree : BlockTree) (block : CBlockHeader) : Prop :=
  ∀ q, tree.find block.hashPrevBlock = some q →
    (tree.entry q).nChainWork.toNat + (getBlockProof block.nBits).toNat < 2 ^ 256

theorem addToBlockIndex_sprouts (block : CBlockHeader) (pindexNew : BlockPtr)
    (unknown : tree.find block.getHash = none) (fresh : pindexNew ∉ tree.mapBlockIndex)
    (fits : tree.WorkFits block) :
    Sprouts tree (tree.addToBlockIndex block pindexNew) pindexNew := by
  unfold addToBlockIndex
  rw [unknown]
  constructor
  · exact fresh
  · rfl
  · rfl
  · rfl
  · rfl
  · rfl
  · intro p known
    have apart : p ≠ pindexNew := by
      rintro rfl
      exact fresh known
    simp [apart]
  · simp [haveData, newEntry, BlockStatus.unknown]
  · simp [linked, newEntry, TreeEntry.null]
  · simp [newEntry]
  · intro q above
    have found : tree.find block.hashPrevBlock = some q := by
      simpa [pprev, newEntry] using above
    have sum := fits q found
    refine ⟨find_known _ q found, ?_, ?_⟩
    · simp [height, newEntry, found]
    · simp only [setEntry_entry, ↓reduceIte, newEntry, found, Option.map_some, Option.getD_some]
      rw [BitVec.le_def, BitVec.toNat_add, Nat.mod_eq_of_lt sum]
      exact Nat.le_add_right _ _

theorem addToBlockIndex_sound (sound : tree.Sound) (block : CBlockHeader) (pindexNew : BlockPtr)
    (fresh : pindexNew ∉ tree.mapBlockIndex) (fits : tree.WorkFits block) :
    (tree.addToBlockIndex block pindexNew).Sound := by
  cases unknown : tree.find block.getHash with
  | some p => simpa [addToBlockIndex, unknown] using sound
  | none =>
      have sprouts := addToBlockIndex_sprouts block pindexNew unknown fresh fits
      exact ⟨sprouts.linkage sound.linkage, sprouts.selection sound⟩

end BlockTree

end CryptoYen
