import Mathlib.Data.List.Perm.Basic
import CryptoYen.Index.Store

set_option autoImplicit false

namespace CryptoYen

namespace BlockTree

variable {tree : BlockTree}

variable (tree : BlockTree) (p : BlockPtr)

theorem offerBlock_frame (tree : BlockTree) (p : BlockPtr) :
    (tree.offerBlock p).mapBlockIndex = tree.mapBlockIndex ∧
      (tree.offerBlock p).entry = tree.entry ∧
      (tree.offerBlock p).chainActive = tree.chainActive ∧
      (tree.offerBlock p).mapBlocksUnlinked = tree.mapBlocksUnlinked ∧
      (tree.offerBlock p).nBlockSequenceId = tree.nBlockSequenceId := by
  unfold offerBlock
  split <;> exact ⟨rfl, rfl, rfl, rfl, rfl⟩

theorem linkBlock_entry : (tree.linkBlock p).entry = (tree.numberBlock p).entry :=
  ((tree.numberBlock p).offerBlock_frame p).2.1

theorem linkBlock_index : (tree.linkBlock p).mapBlockIndex = tree.mapBlockIndex :=
  ((tree.numberBlock p).offerBlock_frame p).1

theorem linkBlock_active : (tree.linkBlock p).chainActive = tree.chainActive :=
  ((tree.numberBlock p).offerBlock_frame p).2.2.1

theorem linkBlock_unlinked :
    (tree.linkBlock p).mapBlocksUnlinked =
      tree.mapBlocksUnlinked.filter fun pair => pair.1 != some p := by
  show ((tree.numberBlock p).offerBlock p).mapBlocksUnlinked.filter _ = _
  rw [((tree.numberBlock p).offerBlock_frame p).2.2.2.1]
  rfl

theorem linkBlock_sequenceId :
    (tree.linkBlock p).nBlockSequenceId = (tree.nBlockSequenceId + 1) % 2 ^ 32 :=
  ((tree.numberBlock p).offerBlock_frame p).2.2.2.2

theorem linkBlock_other (q : BlockPtr) (other : q ≠ p) :
    (tree.linkBlock p).entry q = tree.entry q := by
  rw [linkBlock_entry]
  simp [numberBlock, other]

theorem linkBlock_self :
    (tree.linkBlock p).entry p =
      { tree.entry p with
        nChainTx := (tree.parentChainTx p + (tree.entry p).nTx) % 2 ^ 32
        nSequenceId := tree.nBlockSequenceId } := by
  rw [linkBlock_entry]
  simp [numberBlock]

theorem linkBlock_field {α : Type} (field : TreeEntry → α)
    (free : ∀ entry nChainTx nSequenceId,
      field { entry with nChainTx := nChainTx, nSequenceId := nSequenceId } = field entry)
    (q : BlockPtr) : field ((tree.linkBlock p).entry q) = field (tree.entry q) := by
  by_cases same : q = p
  · subst same
    rw [linkBlock_self]
    exact free _ _ _
  · rw [linkBlock_other tree p q same]

theorem linkBlock_pprev : (tree.linkBlock p).pprev = tree.pprev :=
  funext fun q => tree.linkBlock_field p TreeEntry.pprev (fun _ _ _ => rfl) q

theorem linkBlock_height : (tree.linkBlock p).height = tree.height :=
  funext fun q => tree.linkBlock_field p TreeEntry.nHeight (fun _ _ _ => rfl) q

theorem linkBlock_status (q : BlockPtr) :
    ((tree.linkBlock p).entry q).nStatus = (tree.entry q).nStatus :=
  tree.linkBlock_field p TreeEntry.nStatus (fun _ _ _ => rfl) q

theorem linkBlock_haveData : (tree.linkBlock p).haveData = tree.haveData :=
  funext fun q => by simp only [haveData, linkBlock_status]

theorem linkBlock_chainTotal (q : BlockPtr) : (tree.linkBlock p).chainTotal q = tree.chainTotal q :=
  chainTotal_congr (tree.linkBlock_pprev p) (tree.linkBlock_height p) q fun a _ =>
    tree.linkBlock_field p TreeEntry.nTx (fun _ _ _ => rfl) a

/-- No chain of stored blocks holds more transactions than an unsigned int counts. -/
def ChainsFit (tree : BlockTree) : Prop := ∀ p ∈ tree.mapBlockIndex, tree.chainTotal p < 2 ^ 32

variable {tree p} {queue : List BlockPtr}

theorem linkBlock_counts (linkage : tree.Linkage (p :: queue)) (fits : tree.ChainsFit) :
    ((tree.linkBlock p).entry p).nChainTx = tree.chainTotal p ∧ 0 < tree.chainTotal p := by
  have ready := linkage.ready p List.mem_cons_self
  have populated := linkage.populated p ready.known ready.stored
  have total : tree.parentChainTx p + (tree.entry p).nTx = tree.chainTotal p := by
    unfold parentChainTx
    cases above : tree.pprev p with
    | none =>
        rw [Linkage.chainTotal_root above]
        simp
    | some q =>
        have inside := linkage.leveled.upward p ready.known q above
        have linked := (parentLinked_iff tree p).mp ready.parent_linked q above
        have counted := (linkage.linked q inside linked).counted
        show (tree.entry q).nChainTx + (tree.entry p).nTx = tree.chainTotal p
        rw [linkage.chainTotal_step ready.known above, counted]
        exact Nat.add_comm _ _
  rw [linkBlock_self]
  simp only [total]
  exact ⟨Nat.mod_eq_of_lt (fits p ready.known), by omega⟩

theorem linkBlock_linked (linkage : tree.Linkage (p :: queue)) (fits : tree.ChainsFit)
    (q : BlockPtr) : (tree.linkBlock p).linked q = true ↔ q = p ∨ tree.linked q = true := by
  by_cases same : q = p
  · subst same
    obtain ⟨counted, positive⟩ := linkBlock_counts linkage fits
    rw [linked_iff, counted]
    simp only [true_or, iff_true]
    omega
  · simp [linked, linkBlock_other tree p q same, same]

theorem linkBlock_unlinks (linkage : tree.Linkage (p :: queue)) (fits : tree.ChainsFit)
    (q : BlockPtr) : (tree.linkBlock p).linked q = false ↔ q ≠ p ∧ tree.linked q = false := by
  rw [← Bool.not_eq_true, linkBlock_linked linkage fits q, not_or, Bool.not_eq_true]

theorem linkBlock_parentLinked (linkage : tree.Linkage (p :: queue)) (fits : tree.ChainsFit)
    (q : BlockPtr) (before : tree.parentLinked q = true) :
    (tree.linkBlock p).parentLinked q = true := by
  rw [parentLinked_iff] at before ⊢
  intro parent above
  rw [linkBlock_pprev] at above
  exact (linkBlock_linked linkage fits parent).mpr (Or.inr (before parent above))

theorem mem_waitingFor (p q : BlockPtr) :
    q ∈ tree.waitingFor p ↔ (some p, q) ∈ tree.mapBlocksUnlinked := by
  simp [waitingFor]

theorem linkBlock_once (once : (tree.mapBlocksUnlinked.map Prod.snd ++ p :: queue).Nodup) :
    ((tree.linkBlock p).mapBlocksUnlinked.map Prod.snd ++
      (queue ++ tree.waitingFor p)).Nodup := by
  rw [List.nodup_middle, List.nodup_cons] at once
  have split := (List.filter_append_perm (fun pair => pair.1 == some p)
    tree.mapBlocksUnlinked).map Prod.snd
  rw [List.map_append] at split
  have both := (split.append_right queue).nodup_iff.mpr once.2
  rw [List.append_assoc] at both
  rw [linkBlock_unlinked, ← List.append_assoc]
  exact List.perm_append_comm.nodup_iff.mp both

theorem Linkage.front_absent (linkage : tree.Linkage (p :: queue)) :
    p ∉ tree.mapBlocksUnlinked.map Prod.snd ∧ p ∉ queue := by
  have once := linkage.once
  rw [List.nodup_middle, List.nodup_cons, List.mem_append, not_or] at once
  exact once.1

theorem linkBlock_isLinked (linkage : tree.Linkage (p :: queue)) (fits : tree.ChainsFit)
    (numbers : tree.nBlockSequenceId + 1 < 2 ^ 32) (q : BlockPtr)
    (known : q ∈ (tree.linkBlock p).mapBlockIndex) (linked : (tree.linkBlock p).linked q = true) :
    (tree.linkBlock p).Linked q := by
  have nextId : (tree.linkBlock p).nBlockSequenceId = tree.nBlockSequenceId + 1 := by
    rw [linkBlock_sequenceId]
    exact Nat.mod_eq_of_lt numbers
  rw [linkBlock_index] at known
  by_cases same : q = p
  · subst same
    have front := linkage.ready q List.mem_cons_self
    constructor
    · rw [linkBlock_haveData]
      exact front.stored
    · rw [linkBlock_chainTotal]
      exact (linkBlock_counts linkage fits).1
    · rw [nextId, linkBlock_self]
      exact Nat.lt_succ_self _
    · exact linkBlock_parentLinked linkage fits q front.parent_linked
  · have was := linkage.linked q known
      (((linkBlock_linked linkage fits q).mp linked).resolve_left same)
    constructor
    · rw [linkBlock_haveData]
      exact was.stored
    · rw [linkBlock_chainTotal, linkBlock_other tree p q same]
      exact was.counted
    · rw [nextId, linkBlock_other tree p q same]
      exact Nat.lt_succ_of_lt was.numbered
    · exact linkBlock_parentLinked linkage fits q was.parent_linked

theorem linkBlock_waits (linkage : tree.Linkage (p :: queue)) (fits : tree.ChainsFit)
    (pair : Option BlockPtr × BlockPtr) (member : pair ∈ (tree.linkBlock p).mapBlocksUnlinked) :
    (tree.linkBlock p).Waits pair.1 pair.2 := by
  have unlinkedNow := linkBlock_unlinks linkage fits
  rw [linkBlock_unlinked, List.mem_filter, bne_iff_ne] at member
  have was := linkage.waits pair member.1
  obtain ⟨parent, first, parentUnlinked⟩ := was.parent_unlinked
  constructor
  · rw [linkBlock_index]
    exact was.known
  · rw [linkBlock_pprev]
    exact was.parent_eq
  · rw [linkBlock_haveData]
    exact was.stored
  · rw [unlinkedNow]
    refine ⟨?_, was.unlinked⟩
    rintro same
    exact linkage.front_absent.1 (List.mem_map.mpr ⟨pair, member.1, same⟩)
  · refine ⟨parent, first, (unlinkedNow parent).mpr ⟨?_, parentUnlinked⟩⟩
    rintro rfl
    exact member.2 first

theorem linkBlock_ready (linkage : tree.Linkage (p :: queue)) (fits : tree.ChainsFit)
    (q : BlockPtr) (member : q ∈ queue ++ tree.waitingFor p) : (tree.linkBlock p).Ready q := by
  have unlinkedNow := linkBlock_unlinks linkage fits
  rcases List.mem_append.mp member with queued | released
  · have was := linkage.ready q (List.mem_cons_of_mem p queued)
    constructor
    · rw [linkBlock_index]
      exact was.known
    · rw [linkBlock_haveData]
      exact was.stored
    · rw [unlinkedNow]
      refine ⟨?_, was.unlinked⟩
      rintro rfl
      exact linkage.front_absent.2 queued
    · exact linkBlock_parentLinked linkage fits q was.parent_linked
  · rw [mem_waitingFor] at released
    have was := linkage.waits _ released
    constructor
    · rw [linkBlock_index]
      exact was.known
    · rw [linkBlock_haveData]
      exact was.stored
    · rw [unlinkedNow]
      refine ⟨?_, was.unlinked⟩
      rintro rfl
      exact linkage.front_absent.1 (List.mem_map.mpr ⟨_, released, rfl⟩)
    · rw [parentLinked_iff]
      intro parent above
      rw [linkBlock_pprev, was.parent_eq] at above
      cases above
      exact (linkBlock_linked linkage fits p).mpr (Or.inl rfl)

theorem linkBlock_recorded (linkage : tree.Linkage (p :: queue)) (fits : tree.ChainsFit)
    (q : BlockPtr) (known : q ∈ (tree.linkBlock p).mapBlockIndex)
    (stored : (tree.linkBlock p).haveData q = true)
    (unlinked : (tree.linkBlock p).linked q = false) :
    q ∈ queue ++ tree.waitingFor p ∨
      ((tree.linkBlock p).pprev q, q) ∈ (tree.linkBlock p).mapBlocksUnlinked := by
  rw [linkBlock_index] at known
  rw [linkBlock_haveData] at stored
  obtain ⟨apart, before⟩ := (linkBlock_unlinks linkage fits q).mp unlinked
  rw [linkBlock_pprev, linkBlock_unlinked, List.mem_append, mem_waitingFor, List.mem_filter,
    bne_iff_ne]
  rcases linkage.recorded q known stored before with queued | waiting
  · rcases List.mem_cons.mp queued with same | queued
    · exact absurd same apart
    · exact Or.inl (Or.inl queued)
  · by_cases released : tree.pprev q = some p
    · rw [released] at waiting
      exact Or.inl (Or.inr waiting)
    · exact Or.inr ⟨waiting, released⟩

theorem linkBlock_linkage (linkage : tree.Linkage (p :: queue)) (fits : tree.ChainsFit)
    (numbers : tree.nBlockSequenceId + 1 < 2 ^ 32) :
    (tree.linkBlock p).Linkage (queue ++ tree.waitingFor p) where
  leveled := by
    rw [linkBlock_pprev, linkBlock_index, linkBlock_height]
    exact linkage.leveled
  workGrows := by
    intro q known parent above
    rw [linkBlock_index] at known
    rw [linkBlock_pprev] at above
    have work (x : BlockPtr) :=
      tree.linkBlock_field p TreeEntry.nChainWork (fun _ _ _ => rfl) x
    rw [work, work]
    exact linkage.workGrows q known parent above
  sound := by
    intro q known unlinked
    rw [linkBlock_index] at known
    rw [linkBlock_status]
    exact linkage.sound q known ((linkBlock_unlinks linkage fits q).mp unlinked).2
  populated := by
    intro q known stored
    rw [linkBlock_index] at known
    rw [linkBlock_haveData] at stored
    rw [tree.linkBlock_field p TreeEntry.nTx (fun _ _ _ => rfl) q]
    exact linkage.populated q known stored
  linked := linkBlock_isLinked linkage fits numbers
  waits := linkBlock_waits linkage fits
  ready := linkBlock_ready linkage fits
  once := linkBlock_once linkage.once
  recorded := linkBlock_recorded linkage fits

theorem linkBlock_candidates (tree : BlockTree) (p q : BlockPtr) :
    q ∈ (tree.linkBlock p).setBlockIndexCandidates ↔
      q ∈ tree.setBlockIndexCandidates ∨
        q = p ∧ (tree.linkBlock p).worseThanTip p = false := by
  have judged : (tree.linkBlock p).worseThanTip p = (tree.numberBlock p).worseThanTip p := by
    simp only [worseThanTip, BlockTree.tip, worse, linkBlock_entry, linkBlock_active]
    rfl
  show q ∈ ((tree.numberBlock p).offerBlock p).setBlockIndexCandidates ↔ _
  rw [judged]
  unfold offerBlock
  split
  next bad =>
    simp only [bad, Bool.true_eq_false, and_false, or_false]
    rfl
  next good =>
    rw [List.mem_insert_iff]
    simp only [good, and_true]
    exact Or.comm

/-- A block that is linked now was received later than any block of the active chain, so if the
tip is not better, neither is a block below the tip. -/
theorem linkBlock_candidate (linkage : tree.Linkage (p :: queue)) (selection : tree.Selection)
    (fits : tree.ChainsFit) (good : (tree.linkBlock p).worseThanTip p = false) :
    (tree.linkBlock p).Candidate p := by
  have front := linkage.ready p List.mem_cons_self
  constructor
  · rw [linkBlock_index]
    exact front.known
  · exact (linkBlock_linked linkage fits p).mpr (Or.inl rfl)
  · intro active member
    rw [linkBlock_active] at member
    cases atTip : tree.tip with
    | none =>
        rw [List.head?_eq_none_iff.mp atTip] at member
        cases member
    | some t =>
        have tipMember := List.mem_of_mem_head? atTip
        have activeLinked (a : BlockPtr) (inside : a ∈ tree.chainActive) : tree.linked a = true :=
          (selection.connected a ⟨selection.activeKnown a inside, Or.inl inside⟩).linked
        have apart (a : BlockPtr) (inside : a ∈ tree.chainActive) : a ≠ p := by
          rintro rfl
          have linked := activeLinked a inside
          rw [front.unlinked] at linked
          cases linked
        have sameTip : (tree.linkBlock p).tip = some t := by
          simp only [BlockTree.tip, linkBlock_active]
          exact atTip
        simp only [worseThanTip, sameTip] at good
        rw [(worse_ranks _).false_iff, linkBlock_other tree p t (apart t tipMember)] at good
        rw [(worse_ranks _).false_iff, linkBlock_other tree p active (apart active member)]
        have tipKnown := selection.activeKnown t tipMember
        have numbered := (linkage.linked t tipKnown (activeLinked t tipMember)).numbered
        have later : (tree.entry t).nSequenceId < ((tree.linkBlock p).entry p).nSequenceId := by
          rw [linkBlock_self]
          exact numbered
        have more := TreeEntry.work_lt_of_later _ _ t p good later
        have descends := active_descends selection.path t atTip active member
        have below := linkage.work_le tipKnown descends
        apply le_of_lt
        apply TreeEntry.rank_lt_of_work
        rw [BitVec.le_def] at below
        rw [BitVec.lt_def] at more ⊢
        exact Nat.lt_of_le_of_lt below more

theorem linkBlock_extends (linkage : tree.Linkage (p :: queue)) (selection : tree.Selection)
    (fits : tree.ChainsFit) : Extends tree (tree.linkBlock p) := by
  have front := linkage.ready p List.mem_cons_self
  constructor
  · exact tree.linkBlock_index p
  · exact tree.linkBlock_active p
  · exact tree.linkBlock_pprev p
  · intro q
    rw [linkBlock_status]
  · intro q
    rw [linkBlock_status]
  · intro q
    rw [linkBlock_status]
  · intro q linked
    exact (linkBlock_linked linkage fits q).mpr (Or.inr linked)
  · intro q linked
    rw [linkBlock_other tree p q]
    rintro rfl
    rw [front.unlinked] at linked
    cases linked
  · intro q member
    exact (linkBlock_candidates tree p q).mpr (Or.inl member)
  · intro q before now good
    have same := ((linkBlock_linked linkage fits q).mp now).resolve_right (by simp [before])
    subst same
    exact (linkBlock_candidates tree q q).mpr (Or.inr ⟨rfl, good⟩)
  · intro q member
    rcases (linkBlock_candidates tree p q).mp member with before | ⟨rfl, good⟩
    · exact Or.inl before
    · exact Or.inr (linkBlock_candidate linkage selection fits good)

theorem linkBlock_fits (fits : tree.ChainsFit) : (tree.linkBlock p).ChainsFit := by
  intro q known
  rw [linkBlock_index] at known
  rw [linkBlock_chainTotal]
  exact fits q known

theorem linkBlock_length (tree : BlockTree) (p : BlockPtr) :
    (tree.waitingFor p).length + (tree.linkBlock p).mapBlocksUnlinked.length =
      tree.mapBlocksUnlinked.length := by
  have split := (List.filter_append_perm (fun pair => pair.1 == some p)
    tree.mapBlocksUnlinked).length_eq
  rw [List.length_append] at split
  rw [linkBlock_unlinked, waitingFor, List.length_map]
  exact split

theorem linkBlocks_sound (fuel : Nat) (tree : BlockTree) (queue : List BlockPtr)
    (linkage : tree.Linkage queue) (selection : tree.Selection) (fits : tree.ChainsFit)
    (enough : queue.length + tree.mapBlocksUnlinked.length ≤ fuel)
    (numbers : tree.nBlockSequenceId + queue.length + tree.mapBlocksUnlinked.length < 2 ^ 32) :
    (linkBlocks fuel tree queue).Sound := by
  induction fuel generalizing tree queue with
  | zero =>
      have empty : queue = [] := List.length_eq_zero_iff.mp (by omega)
      subst empty
      exact ⟨linkage, selection⟩
  | succ fuel ih =>
      cases queue with
      | nil => exact ⟨linkage, selection⟩
      | cons pindex queue =>
          have length := tree.linkBlock_length pindex
          simp only [List.length_cons] at enough numbers
          have next : tree.nBlockSequenceId + 1 < 2 ^ 32 := by omega
          have nextId : (tree.linkBlock pindex).nBlockSequenceId = tree.nBlockSequenceId + 1 := by
            rw [linkBlock_sequenceId]
            exact Nat.mod_eq_of_lt next
          apply ih (tree.linkBlock pindex) (queue ++ tree.waitingFor pindex)
          · exact linkBlock_linkage linkage fits next
          · exact (linkBlock_extends linkage selection fits).selection selection
          · exact linkBlock_fits fits
          · rw [List.length_append]
            omega
          · rw [List.length_append, nextId]
            omega

end BlockTree

end CryptoYen
