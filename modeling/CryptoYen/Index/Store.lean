import Mathlib.Data.List.Nodup
import CryptoYen.Index.Extension

set_option autoImplicit false

namespace CryptoYen

namespace BlockTree

variable {tree : BlockTree}

variable (p : BlockPtr) (nTx : Nat)

structure Storable (tree : BlockTree) (p : BlockPtr) (nTx : Nat) : Prop where
  known : p ∈ tree.mapBlockIndex
  absent : tree.haveData p = false
  populated : 0 < nTx
  counted : nTx < 2 ^ 32

theorem storeData_other (tree : BlockTree) (p q : BlockPtr) (nTx : Nat) (other : q ≠ p) :
    (tree.storeData p nTx).entry q = tree.entry q := by
  simp [storeData, other]

theorem storeData_self (tree : BlockTree) (p : BlockPtr) (nTx : Nat) :
    (tree.storeData p nTx).entry p = storedEntry (tree.entry p) nTx := by
  simp [storeData]

@[simp] theorem storeData_pprev (tree : BlockTree) (p : BlockPtr) (nTx : Nat) :
    (tree.storeData p nTx).pprev = tree.pprev := by
  funext q
  by_cases same : q = p
  · simp [pprev, storeData, storedEntry, same]
  · simp [pprev, storeData, same]

@[simp] theorem storeData_height (tree : BlockTree) (p : BlockPtr) (nTx : Nat) :
    (tree.storeData p nTx).height = tree.height := by
  funext q
  by_cases same : q = p
  · simp [height, storeData, storedEntry, same]
  · simp [height, storeData, same]

theorem Storable.unlinked {p : BlockPtr} {nTx : Nat} (storable : tree.Storable p nTx)
    {queue : List BlockPtr} (linkage : tree.Linkage queue) : tree.linked p = false := by
  by_contra linked
  rw [Bool.not_eq_false] at linked
  have stored := (linkage.linked p storable.known linked).stored
  rw [storable.absent] at stored
  cases stored

theorem storeData_linked (tree : BlockTree) (p : BlockPtr) (nTx : Nat)
    (unlinked : tree.linked p = false) : (tree.storeData p nTx).linked = tree.linked := by
  funext q
  by_cases same : q = p
  · subst same
    rw [unlinked]
    simp [linked, storeData_self, storedEntry]
  · simp [linked, storeData_other tree p q nTx same]

theorem storeData_extends (tree : BlockTree) (p : BlockPtr) (nTx : Nat)
    (unlinked : tree.linked p = false) : Extends tree (tree.storeData p nTx) := by
  have apart (q : BlockPtr) (linked : tree.linked q = true) : q ≠ p := by
    rintro rfl
    rw [unlinked] at linked
    cases linked
  have kept := tree.storeData_linked p nTx unlinked
  constructor
  · rfl
  · rfl
  · exact tree.storeData_pprev p nTx
  · intro q
    by_cases same : q = p <;> simp [storeData, storedEntry, same]
  · intro q
    by_cases same : q = p <;> simp [storeData, storedEntry, same]
  · intro q
    by_cases same : q = p <;> simp [storeData, storedEntry, same]
  · intro q linked
    rw [kept]
    exact linked
  · intro q linked
    rw [tree.storeData_other p q nTx (apart q linked)]
  · exact fun q member => member
  · intro q before now
    rw [kept, before] at now
    cases now
  · exact fun q member => Or.inl member

theorem chainTotal_congr {next : BlockTree} (pprev : next.pprev = tree.pprev)
    (height : next.height = tree.height) (q : BlockPtr)
    (same : ∀ a, tree.AncestorOrSelf a q → (next.entry a).nTx = (tree.entry a).nTx) :
    next.chainTotal q = tree.chainTotal q := by
  have walk : next.ancestry q = tree.ancestry q := by simp only [ancestry, pprev, height]
  unfold chainTotal
  rw [walk]
  congr 1
  exact List.map_congr_left fun a member => same a (mem_ancestry q a member)

structure Stores (tree next : BlockTree) (p : BlockPtr) (nTx : Nat)
    (pending : List (Option BlockPtr × BlockPtr)) : Prop where
  index : next.mapBlockIndex = tree.mapBlockIndex
  pprev : next.pprev = tree.pprev
  height : next.height = tree.height
  linked : next.linked = tree.linked
  sequenceId : next.nBlockSequenceId = tree.nBlockSequenceId
  self : next.entry p = storedEntry (tree.entry p) nTx
  other : ∀ q, q ≠ p → next.entry q = tree.entry q
  waiting : next.mapBlocksUnlinked = tree.mapBlocksUnlinked ++ pending

theorem storeData_stores (tree : BlockTree) (unlinked : tree.linked p = false)
    (pending : List (Option BlockPtr × BlockPtr)) :
    Stores tree { tree.storeData p nTx with
      mapBlocksUnlinked := tree.mapBlocksUnlinked ++ pending } p nTx pending where
  index := rfl
  pprev := tree.storeData_pprev p nTx
  height := tree.storeData_height p nTx
  linked := tree.storeData_linked p nTx unlinked
  sequenceId := rfl
  self := tree.storeData_self p nTx
  other := fun q apart => tree.storeData_other p q nTx apart
  waiting := rfl

namespace Stores

variable {next : BlockTree} {p : BlockPtr} {nTx : Nat} {pending : List (Option BlockPtr × BlockPtr)}
  {queue : List BlockPtr}

theorem parentLinked (stores : Stores tree next p nTx pending) :
    next.parentLinked = tree.parentLinked := by
  funext q
  simp only [BlockTree.parentLinked, stores.pprev, stores.linked]

theorem kept (stores : Stores tree next p nTx pending) (unlinked : tree.linked p = false)
    (q : BlockPtr) (here : tree.linked q = true) : next.entry q = tree.entry q := by
  apply stores.other q
  rintro rfl
  rw [unlinked] at here
  cases here

theorem work (stores : Stores tree next p nTx pending) (q : BlockPtr) :
    (next.entry q).nChainWork = (tree.entry q).nChainWork := by
  by_cases same : q = p
  · subst same
    simp [stores.self, storedEntry]
  · rw [stores.other q same]

theorem haveData_of_before (stores : Stores tree next p nTx pending) (q : BlockPtr)
    (here : tree.haveData q = true) : next.haveData q = true := by
  by_cases same : q = p
  · subst same
    simp [haveData, stores.self, storedEntry]
  · unfold haveData
    rw [stores.other q same]
    exact here

theorem haveData_other (stores : Stores tree next p nTx pending) (q : BlockPtr) (apart : q ≠ p)
    (here : next.haveData q = true) : tree.haveData q = true := by
  unfold haveData at here ⊢
  rw [stores.other q apart] at here
  exact here

theorem sound (stores : Stores tree next p nTx pending) (linkage : tree.Linkage [])
    (q : BlockPtr) (known : q ∈ next.mapBlockIndex) (unlinked : next.linked q = false) :
    (next.entry q).nStatus.failed = false ∧
      BLOCK_VALID_TREE ≤ (next.entry q).nStatus.valid := by
  rw [stores.index] at known
  rw [stores.linked] at unlinked
  have was := linkage.sound q known unlinked
  by_cases same : q = p
  · subst same
    rw [stores.self]
    refine ⟨?_, le_trans was.2 ?_⟩
    · simpa [storedEntry, BlockStatus.failed] using was.1
    · exact BlockStatus.le_raiseValidity { (tree.entry q).nStatus with haveData := true } _
  · rw [stores.other q same]
    exact was

theorem populated (stores : Stores tree next p nTx pending) (linkage : tree.Linkage [])
    (storable : tree.Storable p nTx) (q : BlockPtr) (known : q ∈ next.mapBlockIndex)
    (here : next.haveData q = true) : 0 < (next.entry q).nTx := by
  rw [stores.index] at known
  by_cases same : q = p
  · subst same
    rw [stores.self]
    show 0 < nTx % 2 ^ 32
    rw [Nat.mod_eq_of_lt storable.counted]
    exact storable.populated
  · rw [stores.other q same]
    exact linkage.populated q known (stores.haveData_other q same here)

theorem isLinked (stores : Stores tree next p nTx pending) (linkage : tree.Linkage [])
    (unlinked : tree.linked p = false) (q : BlockPtr) (known : q ∈ next.mapBlockIndex)
    (here : next.linked q = true) : next.Linked q := by
  rw [stores.index] at known
  rw [stores.linked] at here
  have was := linkage.linked q known here
  constructor
  · exact stores.haveData_of_before q was.stored
  · rw [stores.kept unlinked q here, was.counted]
    symm
    apply chainTotal_congr stores.pprev stores.height q
    intro a ancestor
    rw [stores.kept unlinked a (linkage.linked_ancestor known here ancestor)]
  · rw [stores.kept unlinked q here, stores.sequenceId]
    exact was.numbered
  · rw [stores.parentLinked]
    exact was.parent_linked

theorem waits_before (stores : Stores tree next p nTx pending) (linkage : tree.Linkage [])
    (pair : Option BlockPtr × BlockPtr) (before : pair ∈ tree.mapBlocksUnlinked) :
    next.Waits pair.1 pair.2 := by
  have was := linkage.waits pair before
  constructor
  · rw [stores.index]
    exact was.known
  · rw [stores.pprev]
    exact was.parent_eq
  · exact stores.haveData_of_before pair.2 was.stored
  · rw [stores.linked]
    exact was.unlinked
  · rw [stores.linked]
    exact was.parent_unlinked

theorem once (stores : Stores tree next p nTx pending) (linkage : tree.Linkage [])
    (storable : tree.Storable p nTx) (placed : pending.map Prod.snd ++ queue = [p]) :
    (next.mapBlocksUnlinked.map Prod.snd ++ queue).Nodup := by
  rw [stores.waiting, List.map_append, List.append_assoc, placed]
  have before : (tree.mapBlocksUnlinked.map Prod.snd).Nodup := by simpa using linkage.once
  apply List.Nodup.append before (List.nodup_singleton p)
  intro q member same
  rw [List.mem_singleton] at same
  obtain ⟨pair, inside, snd⟩ := List.mem_map.mp member
  have here := (linkage.waits pair inside).stored
  rw [snd, same, storable.absent] at here
  cases here

theorem recorded (stores : Stores tree next p nTx pending) (linkage : tree.Linkage [])
    (placed : pending.map Prod.snd ++ queue = [p])
    (waits : ∀ pair ∈ pending, next.Waits pair.1 pair.2) (q : BlockPtr)
    (known : q ∈ next.mapBlockIndex) (here : next.haveData q = true)
    (lacks : next.linked q = false) :
    q ∈ queue ∨ (next.pprev q, q) ∈ next.mapBlocksUnlinked := by
  rw [stores.index] at known
  rw [stores.linked] at lacks
  rw [stores.waiting]
  by_cases same : q = p
  · have member : p ∈ pending.map Prod.snd ++ queue := by simp [placed]
    rcases List.mem_append.mp member with now | queued
    · right
      obtain ⟨pair, inside, snd⟩ := List.mem_map.mp now
      have parent := (waits pair inside).parent_eq
      rw [snd] at parent
      rw [same, parent, ← snd]
      exact List.mem_append_right _ inside
    · left
      rw [same]
      exact queued
  · right
    rw [stores.pprev]
    rcases linkage.recorded q known (stores.haveData_other q same here) lacks with queued | member
    · cases queued
    · exact List.mem_append_left _ member

end Stores

theorem stored_linkage (linkage : tree.Linkage []) (storable : tree.Storable p nTx)
    (pending : List (Option BlockPtr × BlockPtr)) (queue : List BlockPtr) (next : BlockTree)
    (placed : next =
      { tree.storeData p nTx with mapBlocksUnlinked := tree.mapBlocksUnlinked ++ pending })
    (once : pending.map Prod.snd ++ queue = [p])
    (waits : ∀ pair ∈ pending, next.Waits pair.1 pair.2) (ready : ∀ q ∈ queue, next.Ready q) :
    next.Linkage queue := by
  have unlinked := storable.unlinked linkage
  have stores : Stores tree next p nTx pending := by
    rw [placed]
    exact tree.storeData_stores p nTx unlinked pending
  constructor
  · rw [stores.pprev, stores.index, stores.height]
    exact linkage.leveled
  · intro q known parent above
    rw [stores.index] at known
    rw [stores.pprev] at above
    rw [stores.work, stores.work]
    exact linkage.workGrows q known parent above
  · exact stores.sound linkage
  · exact stores.populated linkage storable
  · exact stores.isLinked linkage unlinked
  · intro pair member
    rw [stores.waiting] at member
    rcases List.mem_append.mp member with before | now
    · exact stores.waits_before linkage pair before
    · exact waits pair now
  · exact ready
  · exact stores.once linkage storable once
  · exact stores.recorded linkage once waits

end BlockTree

end CryptoYen
