import CryptoYen.Index.Flags

set_option autoImplicit false

namespace CryptoYen

def BlockStatus.cleared (status : BlockStatus) : BlockStatus :=
  { status with failedValid := false, failedChild := false }

@[simp] theorem BlockStatus.cleared_cleared (status : BlockStatus) :
    status.cleared.cleared = status.cleared := rfl

@[simp] theorem BlockStatus.cleared_failed (status : BlockStatus) :
    status.cleared.failed = false := rfl

theorem BlockStatus.cleared_of_sound (status : BlockStatus) (sound : status.failed = false) :
    status.cleared = status := by
  cases status
  simp only [failed, Bool.or_eq_false_iff] at sound
  simp [cleared, sound]

namespace BlockTree

variable {tree next : BlockTree} {b : BlockPtr}

theorem clearFailed_entry (tree : BlockTree) (x p : BlockPtr) :
    (tree.clearFailed x).entry p =
      { tree.entry p with
        nStatus :=
          if p = x then (tree.entry p).nStatus.cleared else (tree.entry p).nStatus } := by
  by_cases same : p = x
  · simp [clearFailed, setStatus, BlockStatus.cleared, same]
  · simp [clearFailed, setStatus, same]

theorem clearAncestor_eq (tree : BlockTree) (p : BlockPtr) :
    clearAncestor tree p = tree.clearFailed p := by
  unfold clearAncestor
  split
  next => rfl
  next sound =>
    have same := BlockStatus.cleared_of_sound _ (Bool.eq_false_iff.mpr sound)
    change tree = tree.setStatus p (tree.entry p).nStatus.cleared
    rw [same]
    simp [setStatus, setEntry]

def descendsAt (tree : BlockTree) (b p : BlockPtr) : Bool :=
  tree.getAncestor p (tree.height b) == some b

structure Reconsidering (tree next : BlockTree) (b : BlockPtr) (members : List BlockPtr) : Prop where
  mapBlockIndex : next.mapBlockIndex = tree.mapBlockIndex
  chainActive : next.chainActive = tree.chainActive
  unlinked : next.mapBlocksUnlinked = tree.mapBlocksUnlinked
  sequence : next.nBlockSequenceId = tree.nBlockSequenceId
  entry : ∀ p, next.entry p =
    { tree.entry p with
      nStatus :=
        if p ∈ members ∧ tree.descendsAt b p = true then (tree.entry p).nStatus.cleared
        else (tree.entry p).nStatus }
  kept : ∀ p ∈ tree.setBlockIndexCandidates, p ∈ next.setBlockIndexCandidates
  added : ∀ p ∈ next.setBlockIndexCandidates, p ∈ tree.setBlockIndexCandidates ∨
    p ∈ members ∧ tree.linked p = true ∧ ∃ tip, tree.tip = some tip ∧ tree.worse tip p = true
  offers : ∀ p ∈ members, tree.descendsAt b p = true → (tree.entry p).nStatus.failed = true →
    BLOCK_VALID_TRANSACTIONS ≤ (tree.entry p).nStatus.valid → tree.linked p = true →
    ∃ tip, tree.tip = some tip ∧ (tree.worse tip p = true → p ∈ next.setBlockIndexCandidates)

theorem clearFailed_relabelled (tree : BlockTree) (x : BlockPtr) :
    Relabelled tree (tree.clearFailed x) := by
  intro p
  rw [clearFailed_entry]

theorem reconsiderEntry_skips (x : BlockPtr)
    (skips : (tree.entry x).nStatus.failed = false ∨ tree.descendsAt b x = false) :
    Reconsidering tree tree b [x] := by
  refine ⟨rfl, rfl, rfl, rfl, fun p => ?_, fun p member => member, fun p member => .inl member, ?_⟩
  · split
    next here =>
      obtain ⟨member, descends⟩ := here
      rw [List.mem_singleton] at member
      subst member
      rcases skips with sound | off
      · rw [BlockStatus.cleared_of_sound _ sound]
      · rw [descends] at off
        cases off
    next => rfl
  · intro p member descends failed
    rw [List.mem_singleton] at member
    subst member
    rcases skips with sound | off
    · rw [failed] at sound
      cases sound
    · rw [descends] at off
      cases off

theorem reconsiderEntry_spec (x : BlockPtr) (ran : reconsiderEntry b tree x = some next) :
    Reconsidering tree next b [x] := by
  unfold reconsiderEntry at ran
  split at ran
  next enters =>
    rw [Bool.and_eq_true, Bool.not_eq_true'] at enters
    obtain ⟨invalid, descends⟩ := enters
    change tree.descendsAt b x = true at descends
    have relabelled := clearFailed_relabelled tree x
    have entries (p : BlockPtr) : (tree.clearFailed x).entry p =
        { tree.entry p with
          nStatus :=
            if p ∈ [x] ∧ tree.descendsAt b p = true then (tree.entry p).nStatus.cleared
            else (tree.entry p).nStatus } := by
      rw [clearFailed_entry]
      by_cases same : p = x
      · simp [same, descends]
      · simp [same]
    simp only at ran
    split at ran
    next valid =>
      rw [Bool.and_eq_true, relabelled.linked] at valid
      split at ran
      next => cases ran
      next tip atTip =>
        change tree.tip = some tip at atTip
        rw [relabelled.worse] at ran
        split at ran
        next better =>
          cases ran
          refine ⟨rfl, rfl, rfl, rfl, entries, ?_, ?_, ?_⟩
          · intro p member
            exact List.mem_insert_of_mem member
          · intro p member
            rcases List.mem_insert_iff.mp member with rfl | before
            · exact .inr ⟨List.mem_singleton_self p, valid.2, tip, atTip, better⟩
            · exact .inl before
          · intro p member _ _ _ _
            rw [List.mem_singleton] at member
            subst member
            exact ⟨tip, atTip, fun _ => List.mem_insert_self⟩
        next worse =>
          cases ran
          refine ⟨rfl, rfl, rfl, rfl, entries, fun p member => member, fun p member => .inl member, ?_⟩
          intro p member _ _ _ _
          rw [List.mem_singleton] at member
          subst member
          exact ⟨tip, atTip, fun better => absurd better worse⟩
    next waiting =>
      cases ran
      refine ⟨rfl, rfl, rfl, rfl, entries, fun p member => member, fun p member => .inl member, ?_⟩
      intro p member _ _ level linked
      rw [List.mem_singleton] at member
      subst member
      refine absurd ?_ waiting
      rw [Bool.and_eq_true, relabelled.linked, clearFailed_entry]
      simpa [BlockStatus.isValid, BlockStatus.failed, BlockStatus.cleared, linked] using level
  next leaves =>
    cases ran
    apply reconsiderEntry_skips
    rw [Bool.and_eq_true, not_and_or, Bool.not_eq_true', Bool.not_eq_false] at leaves
    rcases leaves with valid | off
    · rw [BlockStatus.isValid, Bool.and_eq_true, Bool.not_eq_true'] at valid
      exact .inl valid.1
    · exact .inr (Bool.eq_false_iff.mpr off)

namespace Reconsidering

variable {first rest : List BlockPtr} {middle : BlockTree}

theorem relabelled (step : Reconsidering tree next b first) : Relabelled tree next := by
  intro p
  rw [step.entry]

theorem descendsAt_eq (step : Reconsidering tree next b first) :
    next.descendsAt b = tree.descendsAt b := by
  have relabelled := step.relabelled
  funext p
  simp only [descendsAt, getAncestor, relabelled.ancestry, relabelled.height]

theorem tip_eq (step : Reconsidering tree next b first) : next.tip = tree.tip :=
  congrArg List.head? step.chainActive

theorem trans (step : Reconsidering tree middle b first)
    (later : Reconsidering middle next b rest) : Reconsidering tree next b (first ++ rest) := by
  have descends := step.descendsAt_eq
  have linked := step.relabelled.linked
  have worse := step.relabelled.worse
  have tip := step.tip_eq
  refine ⟨later.mapBlockIndex.trans step.mapBlockIndex, later.chainActive.trans step.chainActive,
    later.unlinked.trans step.unlinked, later.sequence.trans step.sequence, fun p => ?_,
    fun p member => later.kept p (step.kept p member), fun p member => ?_, ?_⟩
  · rw [later.entry p, step.entry p, descends]
    by_cases here : tree.descendsAt b p = true <;> by_cases inFirst : p ∈ first <;>
      by_cases inRest : p ∈ rest <;> simp [here, inFirst, inRest]
  · rw [List.mem_append]
    rcases later.added p member with before | ⟨inRest, here, better⟩
    · rcases step.added p before with old | ⟨inFirst, here⟩
      · exact .inl old
      · exact .inr ⟨.inl inFirst, here⟩
    · rw [linked] at here
      rw [tip, worse] at better
      exact .inr ⟨.inr inRest, here, better⟩
  · intro p member here failed level linkedHere
    by_cases inFirst : p ∈ first
    · obtain ⟨t, atTip, offered⟩ := step.offers p inFirst here failed level linkedHere
      exact ⟨t, atTip, fun better => later.kept p (offered better)⟩
    · have same : (middle.entry p).nStatus = (tree.entry p).nStatus := by
        rw [step.entry p]
        simp [inFirst]
      have inRest := (List.mem_append.mp member).resolve_left inFirst
      have offered := later.offers p inRest
      rw [descends, same, linked, tip, worse] at offered
      exact offered here failed level linkedHere

end Reconsidering

theorem reconsiderEntries_spec (members : List BlockPtr) (tree : BlockTree)
    (ran : members.foldlM (reconsiderEntry b) tree = some next) :
    Reconsidering tree next b members := by
  induction members generalizing tree with
  | nil =>
      cases ran
      refine ⟨rfl, rfl, rfl, rfl, fun p => ?_, fun p member => member, fun p member => .inl member, ?_⟩
      · simp
      · intro p member
        cases member
  | cons x rest ih =>
      rw [List.foldlM_cons] at ran
      obtain ⟨middle, taken, later⟩ := Option.bind_eq_some_iff.mp ran
      exact (reconsiderEntry_spec x taken).trans (ih middle later)

theorem clearAncestors_spec (ancestors : List BlockPtr) (tree : BlockTree) :
    ∃ entry, ancestors.foldl clearAncestor tree = { tree with entry := entry } ∧
      ∀ p, entry p =
        { tree.entry p with
          nStatus :=
            if p ∈ ancestors then (tree.entry p).nStatus.cleared else (tree.entry p).nStatus } := by
  induction ancestors generalizing tree with
  | nil => exact ⟨tree.entry, rfl, fun p => by simp⟩
  | cons x rest ih =>
      obtain ⟨entry, placed, cleared⟩ := ih (tree.clearFailed x)
      refine ⟨entry, ?_, fun p => ?_⟩
      · rw [List.foldl_cons, clearAncestor_eq, placed]
        rfl
      · rw [cleared, clearFailed_entry]
        by_cases same : p = x <;> by_cases later : p ∈ rest <;> simp [same, later]

def onLine (tree : BlockTree) (b p : BlockPtr) : Bool :=
  decide (p ∈ tree.mapBlockIndex) && decide (b ∈ tree.ancestry p) || decide (p ∈ tree.ancestry b)

/-- What ReconsiderBlock leaves behind: it clears the marks of the line of the block and offers
those of its failed descendants that beat the tip. -/
structure Reconsidered (tree next : BlockTree) (b : BlockPtr) : Prop where
  mapBlockIndex : next.mapBlockIndex = tree.mapBlockIndex
  chainActive : next.chainActive = tree.chainActive
  unlinked : next.mapBlocksUnlinked = tree.mapBlocksUnlinked
  sequence : next.nBlockSequenceId = tree.nBlockSequenceId
  entry : ∀ p, next.entry p =
    { tree.entry p with
      nStatus :=
        if tree.onLine b p = true then (tree.entry p).nStatus.cleared
        else (tree.entry p).nStatus }
  kept : ∀ p ∈ tree.setBlockIndexCandidates, p ∈ next.setBlockIndexCandidates
  added : ∀ p ∈ next.setBlockIndexCandidates, p ∈ tree.setBlockIndexCandidates ∨
    p ∈ tree.mapBlockIndex ∧ tree.linked p = true ∧
      ∃ tip, tree.tip = some tip ∧ tree.worse tip p = true
  offers : ∀ p ∈ tree.mapBlockIndex, b ∈ tree.ancestry p → (tree.entry p).nStatus.failed = true →
    BLOCK_VALID_TRANSACTIONS ≤ (tree.entry p).nStatus.valid → tree.linked p = true →
    ∃ tip, tree.tip = some tip ∧ (tree.worse tip p = true → p ∈ next.setBlockIndexCandidates)

theorem descendsAt_iff (leveled : Ancestry.Leveled tree.pprev (· ∈ tree.mapBlockIndex) tree.height)
    {p : BlockPtr} (known : p ∈ tree.mapBlockIndex) :
    tree.descendsAt b p = true ↔ b ∈ tree.ancestry p := by
  unfold descendsAt getAncestor
  rw [beq_iff_eq]
  constructor
  · exact List.mem_of_find?_eq_some
  · intro member
    cases found : (tree.ancestry p).find? fun q => (tree.height q : Int) == tree.height b with
    | none =>
        have missed := List.find?_eq_none.mp found b member
        simp at missed
    | some a =>
        have level := List.find?_some found
        rw [beq_iff_eq, Int.ofNat_inj] at level
        have here := mem_ancestry p a (List.mem_of_find?_eq_some found)
        rw [leveled.same_height known here (mem_ancestry p b member) level]

theorem reconsiderBlock_spec
    (leveled : Ancestry.Leveled tree.pprev (· ∈ tree.mapBlockIndex) tree.height)
    (ran : tree.reconsiderBlock b = some next) : Reconsidered tree next b := by
  obtain ⟨middle, taken, rfl⟩ := Option.map_eq_some_iff.mp ran
  have step := reconsiderEntries_spec tree.mapBlockIndex tree taken
  obtain ⟨entry, placed, cleared⟩ := clearAncestors_spec (middle.ancestry b) middle
  rw [placed]
  refine ⟨step.mapBlockIndex, step.chainActive, step.unlinked, step.sequence, fun p => ?_,
    step.kept, step.added, fun p known member => ?_⟩
  · show entry p = _
    rw [cleared, step.entry, step.relabelled.ancestry]
    by_cases known : p ∈ tree.mapBlockIndex
    · simp only [descendsAt_iff leveled known]
      by_cases here : b ∈ tree.ancestry p <;> by_cases above : p ∈ tree.ancestry b <;>
        simp [onLine, known, here, above]
    · by_cases above : p ∈ tree.ancestry b <;> simp [onLine, known, above]
  · exact step.offers p known ((descendsAt_iff leveled known).mpr member)

end BlockTree

end CryptoYen
