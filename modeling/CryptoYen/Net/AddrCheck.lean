import CryptoYen.Consensus.Validation
import CryptoYen.Library.Codec
import CryptoYen.Net.AddrTables

set_option autoImplicit false

namespace CryptoYen

namespace CAddrMan

open PartialMap

-- Check_ returns a negative code at the first test that fails.
def demand (condition : Bool) (err : Int) : Except Int Unit :=
  if condition then .ok () else .error err

@[simp] theorem demand_ok (condition : Bool) (err : Int) :
    demand condition err = .ok () ↔ condition = true := by
  cases condition <;> simp [demand]

-- The loops over mapInfo go by id.
def infos (s : CAddrMan) : List (Nat × CAddrInfo) := Codec.sortedEntries id s.mapInfo

def checkInfo (s : CAddrMan) (entry : Nat × CAddrInfo) : Except Int Unit := do
  let (n, info) := entry
  if info.fInTried = true then
    demand (info.nLastSuccess ≠ 0) (-1)
    demand (info.nRefCount = 0) (-2)
  else
    demand (0 ≤ info.nRefCount ∧ info.nRefCount ≤ ADDRMAN_NEW_BUCKETS_PER_ADDRESS) (-3)
    demand (info.nRefCount ≠ 0) (-4)
  demand ((s.mapAddr.lookup info.ip).getD 0 = n) (-5)
  demand (0 ≤ info.nRandomPos ∧ s.vRandom[info.nRandomPos.toNat]? = some n) (-14)
  demand (0 ≤ info.nLastTry) (-6)
  demand (0 ≤ info.nLastSuccess) (-8)

def setTried (s : CAddrMan) : Finset Nat :=
  ((s.infos.filter fun entry => entry.2.fInTried).map Prod.fst).toFinset

def mapNew (s : CAddrMan) : AList fun _ : Nat => Int :=
  Codec.fromEntries ((s.infos.filter fun entry => !entry.2.fInTried).map fun entry =>
    (entry.1, entry.2.nRefCount))

def triedSlots : List TriedSlot := List.finRange _ ×ˢ List.finRange _

def newSlots : List NewSlot := List.finRange _ ×ˢ List.finRange _

variable [AddrHasher]

def checkTried (s : CAddrMan) : List TriedSlot → Finset Nat → Except Int (Finset Nat)
  | [], left => .ok left
  | slot :: rest, left =>
      match s.vvTried slot with
      | none => s.checkTried rest left
      | some nId => do
          let info := (s.mapInfo.lookup nId).getD .null
          demand (nId ∈ left) (-11)
          demand ((info.triedSlot s.nKey).1 = slot.1) (-17)
          demand (AddrHasher.getBucketPosition s.nKey false slot.1.val info.toCService = slot.2) (-18)
          s.checkTried rest (left.erase nId)

def checkNew (s : CAddrMan) : List NewSlot → (AList fun _ : Nat => Int) →
    Except Int (AList fun _ : Nat => Int)
  | [], left => .ok left
  | slot :: rest, left =>
      match s.vvNew slot with
      | none => s.checkNew rest left
      | some nId =>
          match left.lookup nId with
          | none => .error (-12)
          | some refs => do
              let info := (s.mapInfo.lookup nId).getD .null
              demand (info.newPosition s.nKey slot.1 = slot.2) (-19)
              s.checkNew rest
                (if refs - 1 = 0 then left.erase nId else left.insert nId (refs - 1))

def checkTables (s : CAddrMan) : Except Int Unit := do
  demand (s.vRandom.length = s.nTried + s.nNew) (-7)
  forM s.infos s.checkInfo
  demand (s.setTried.card = s.nTried) (-9)
  demand (s.mapNew.entries.length = s.nNew) (-10)
  let setTried ← s.checkTried triedSlots s.setTried
  let mapNew ← s.checkNew newSlots s.mapNew
  demand (setTried = ∅) (-13)
  demand (mapNew.entries.length = 0) (-15)

def check (s : CAddrMan) : Except Int Unit := do
  s.checkTables
  demand (s.nKey ≠ 0) (-16)

section Loops

variable (s : CAddrMan)

omit [AddrHasher] in
theorem taken_once (left : Finset Nat) (nId : Nat) (counts : Nat → Nat) :
    (nId ∈ left ∧ ∀ other, (if other ≠ nId ∧ other ∈ left then 1 else 0) = counts other) ↔
      ∀ other, (if other ∈ left then 1 else 0) = counts other + if nId = other then 1 else 0 := by
  constructor
  · intro ⟨member, rest⟩ other
    have there := rest other
    by_cases same : nId = other
    next => simp_all
    next => simpa [same, Ne.symm same] using there
  · intro all
    have member : nId ∈ left := by
      have here := all nId
      by_contra absent
      simp [absent] at here
    refine ⟨member, fun other => ?_⟩
    have there := all other
    by_cases same : nId = other
    next => simp_all
    next => simpa [same, Ne.symm same] using there

omit [AddrHasher] in
theorem counted_down (left : AList fun _ : Nat => Int) (nId : Nat) (refs : Int)
    (there : left.lookup nId = some refs) (other : Nat) :
    ((if refs - 1 = 0 then left.erase nId else left.insert nId (refs - 1)).lookup other).getD 0 =
      (left.lookup other).getD 0 - if nId = other then 1 else 0 := by
  split
  next last =>
    rw [Assoc.lookup_erase]
    by_cases same : other = nId
    next =>
      subst same
      simp [there]
      omega
    next => simp [same, Ne.symm same]
  next =>
    rw [Assoc.lookup_insert]
    by_cases same : other = nId
    next =>
      subst same
      simp [there]
    next => simp [same, Ne.symm same]

theorem checkTried_empty (slots : List TriedSlot) (left : Finset Nat) :
    s.checkTried slots left = .ok ∅ ↔
      (∀ slot ∈ slots, ∀ nId, s.vvTried slot = some nId →
        ((s.mapInfo.lookup nId).getD .null).triedSlot s.nKey = slot) ∧
      ∀ nId, (if nId ∈ left then 1 else 0) = (slots.filterMap s.vvTried).count nId := by
  induction slots generalizing left with
  | nil =>
      simp only [checkTried, Except.ok.injEq, List.not_mem_nil, false_implies, implies_true,
        true_and, List.filterMap_nil, List.count_nil, ite_eq_right_iff, one_ne_zero, imp_false]
      exact Finset.eq_empty_iff_forall_notMem
  | cons slot rest ih =>
      unfold checkTried
      cases used : s.vvTried slot with
      | none => simp [used, ih]
      | some nId =>
          have here : ∀ info : CAddrInfo, info.triedSlot s.nKey = slot ↔
              (info.triedSlot s.nKey).1 = slot.1 ∧
                AddrHasher.getBucketPosition s.nKey false slot.1.val info.toCService = slot.2 := by
            intro info
            rw [Prod.ext_iff]
            refine and_congr_right fun same => ?_
            rw [← same]
            rfl
          simp only [Except.bind_ok, demand_ok, exists_unit, ih, decide_eq_true_eq,
            List.forall_mem_cons, used, Option.some.injEq, forall_eq', here,
            List.filterMap_cons_some used, List.count_cons, Finset.mem_erase, beq_iff_eq,
            ← taken_once left nId]
          tauto

theorem checkNew_empty (slots : List NewSlot) (left : AList fun _ : Nat => Int)
    (positive : ∀ nId refs, left.lookup nId = some refs → 0 < refs) :
    (∃ last, s.checkNew slots left = .ok last ∧ last.entries.length = 0) ↔
      (∀ slot ∈ slots, ∀ nId, s.vvNew slot = some nId →
        ((s.mapInfo.lookup nId).getD .null).newPosition s.nKey slot.1 = slot.2) ∧
      ∀ nId, (left.lookup nId).getD 0 = (slots.filterMap s.vvNew).count nId := by
  induction slots generalizing left with
  | nil =>
      simp only [checkNew, Except.ok.injEq, exists_eq_left', List.not_mem_nil, false_implies,
        implies_true, true_and, List.filterMap_nil, List.count_nil, List.length_eq_zero_iff]
      constructor
      · intro empty nId
        have unknown : left.lookup nId = none := by
          rw [AList.lookup, empty]
          rfl
        simp [unknown]
      · intro zero
        refine List.eq_nil_iff_forall_not_mem.mpr fun ⟨nId, refs⟩ member => ?_
        have present := (Assoc.mem_entries left nId refs).mp member
        have some_left := positive nId refs present
        have none_left := zero nId
        rw [present] at none_left
        simp only [Option.getD_some] at none_left
        omega
  | cons slot rest ih =>
      unfold checkNew
      cases used : s.vvNew slot with
      | none =>
          simp only [ih left positive, List.forall_mem_cons, used, reduceCtorEq, false_implies,
            implies_true, true_and, List.filterMap_cons_none used]
      | some nId =>
          cases there : left.lookup nId with
          | none =>
              simp only [there, reduceCtorEq, false_and, exists_false, false_iff, not_and]
              intro _ zero
              have counts := zero nId
              rw [there, List.filterMap_cons_some used, List.count_cons_self] at counts
              simp at counts
              omega
          | some refs =>
              obtain ⟨next, is_next⟩ : ∃ next, next =
                  if refs - 1 = 0 then left.erase nId else left.insert nId (refs - 1) := ⟨_, rfl⟩
              have next_positive : ∀ other found, next.lookup other = some found → 0 < found := by
                have here := positive nId refs there
                rw [is_next]
                split
                next => exact fun other found present =>
                  positive other found (Assoc.lookup_of_erase _ _ _ _ present).2
                next more =>
                  exact Assoc.forall_lookup_insert left nId (refs - 1) (by omega)
                    fun other found _ => positive other found
              have shifted : ∀ other, (next.lookup other).getD 0 =
                  (left.lookup other).getD 0 - if nId = other then 1 else 0 := by
                intro other
                rw [is_next, counted_down left nId refs there]
              have step := ih next next_positive
              simp only [shifted, sub_eq_iff_eq_add] at step
              simp only [there, ← is_next, Except.bind_ok, demand_ok, exists_unit,
                decide_eq_true_eq, and_assoc, exists_and_left, step, List.forall_mem_cons, used,
                Option.some.injEq, forall_eq', List.filterMap_cons_some used, List.count_cons,
                beq_iff_eq, Nat.cast_add, Nat.cast_ite, Nat.cast_one, Nat.cast_zero]

end Loops

section Sets

variable (s : CAddrMan) (nId : Nat)

omit [AddrHasher]

theorem mem_infos (info : CAddrInfo) : (nId, info) ∈ s.infos ↔ s.mapInfo.lookup nId = some info :=
  Codec.mem_sortedEntries id s.mapInfo nId info

theorem mem_setTried :
    nId ∈ s.setTried ↔ ∃ info, s.mapInfo.lookup nId = some info ∧ info.fInTried = true := by
  simp [setTried, mem_infos]

theorem newEntries_distinct :
    (((s.infos.filter fun entry => !entry.2.fInTried).map fun entry =>
      (entry.1, entry.2.nRefCount)).map Prod.fst).Nodup := by
  rw [List.map_map]
  exact (Codec.sortedEntries_distinct id s.mapInfo).sublist (List.filter_sublist.map Prod.fst)

theorem lookup_mapNew (refs : Int) :
    s.mapNew.lookup nId = some refs ↔
      ∃ info, s.mapInfo.lookup nId = some info ∧ info.fInTried = false ∧ info.nRefCount = refs := by
  rw [mapNew, Codec.lookup_fromEntries _ s.newEntries_distinct]
  simp [mem_infos, and_assoc]

theorem sum_marks (mark : CAddrInfo → Bool) :
    Assoc.sumBy (fun info => if mark info then (1 : Int) else 0) s.mapInfo =
      (s.infos.filter fun entry => mark entry.2).length := by
  rw [Codec.sumBy_sortedEntries id, infos]
  induction Codec.sortedEntries id s.mapInfo with
  | nil => rfl
  | cons entry rest ih => cases here : mark entry.2 <;> simp [here, ih, add_comm]

theorem setTried_length :
    s.setTried.card = (s.infos.filter fun entry => entry.2.fInTried).length := by
  have distinct : ((s.infos.filter fun entry => entry.2.fInTried).map Prod.fst).Nodup :=
    (Codec.sortedEntries_distinct id s.mapInfo).sublist (List.filter_sublist.map Prod.fst)
  rw [setTried, List.toFinset_card_of_nodup distinct, List.length_map]

theorem mapNew_length :
    s.mapNew.entries.length = (s.infos.filter fun entry => !entry.2.fInTried).length := by
  have listed := (Codec.fromEntries_perm _ s.newEntries_distinct).length_eq
  rw [List.length_map, List.length_map] at listed
  exact listed

theorem setTried_sum : (s.setTried.card : Int) = Assoc.sumBy triedMark s.mapInfo := by
  rw [setTried_length]
  exact (s.sum_marks fun info => info.fInTried).symm

theorem mapNew_sum : (s.mapNew.entries.length : Int) = Assoc.sumBy newMark s.mapInfo := by
  have marks : newMark = fun info => if (!info.fInTried) = true then (1 : Int) else 0 := by
    funext info
    cases here : info.fInTried <;> simp [newMark, here]
  rw [marks, s.sum_marks, mapNew_length]

end Sets

structure Checked (s : CAddrMan) : Prop where
  size : (s.vRandom.length : Int) = s.nTried + s.nNew
  info : ∀ nId info, s.mapInfo.lookup nId = some info → s.checkInfo (nId, info) = .ok ()
  triedSize : (s.setTried.card : Int) = s.nTried
  newSize : (s.mapNew.entries.length : Int) = s.nNew
  tried : ∀ slot nId, s.vvTried slot = some nId →
    ((s.mapInfo.lookup nId).getD .null).triedSlot s.nKey = slot
  triedOnce : ∀ nId, (if nId ∈ s.setTried then 1 else 0) = count s.vvTried nId
  new : ∀ slot nId, s.vvNew slot = some nId →
    ((s.mapInfo.lookup nId).getD .null).newPosition s.nKey slot.1 = slot.2
  newRefs : ∀ nId, (s.mapNew.lookup nId).getD 0 = count s.vvNew nId

omit [AddrHasher] in
theorem mem_triedSlots (slot : TriedSlot) : slot ∈ triedSlots :=
  List.pair_mem_product.mpr ⟨List.mem_finRange slot.1, List.mem_finRange slot.2⟩

omit [AddrHasher] in
theorem mem_newSlots (slot : NewSlot) : slot ∈ newSlots :=
  List.pair_mem_product.mpr ⟨List.mem_finRange slot.1, List.mem_finRange slot.2⟩

omit [AddrHasher] in
theorem triedSlots_nodup : triedSlots.Nodup :=
  (List.nodup_finRange _).product (List.nodup_finRange _)

omit [AddrHasher] in
theorem newSlots_nodup : newSlots.Nodup := (List.nodup_finRange _).product (List.nodup_finRange _)

omit [AddrHasher] in
theorem mapNew_positive (s : CAddrMan)
    (infos : ∀ nId info, s.mapInfo.lookup nId = some info → s.checkInfo (nId, info) = .ok ())
    (nId : Nat) (refs : Int) (present : s.mapNew.lookup nId = some refs) : 0 < refs := by
  obtain ⟨info, known, untried, rfl⟩ := (s.lookup_mapNew nId refs).mp present
  have checked := infos nId info known
  simp [checkInfo, untried] at checked
  omega

theorem checkTables_ok (s : CAddrMan) : s.checkTables = .ok () ↔ s.Checked := by
  have tried := s.checkTried_empty triedSlots s.setTried
  have new := s.checkNew_empty newSlots s.mapNew
  simp only [count_filterMap _ _ _ triedSlots_nodup mem_triedSlots, mem_triedSlots,
    forall_true_left] at tried
  simp only [count_filterMap _ _ _ newSlots_nodup mem_newSlots, mem_newSlots,
    forall_true_left] at new
  simp only [checkTables, Except.bind_ok, demand_ok, exists_unit, forM_ok, Prod.forall, mem_infos,
    decide_eq_true_eq]
  constructor
  · rintro ⟨size, infos, triedSize, newSize, left, ran, last, new_ran, empty, zero⟩
    rw [empty] at ran
    obtain ⟨tried_place, tried_once⟩ := tried.mp ran
    obtain ⟨new_place, new_refs⟩ := (new (s.mapNew_positive infos)).mp ⟨last, new_ran, zero⟩
    exact ⟨size, infos, triedSize, newSize, tried_place, tried_once, new_place, new_refs⟩
  · intro checked
    have ran := tried.mpr ⟨checked.tried, checked.triedOnce⟩
    obtain ⟨last, new_ran, zero⟩ :=
      (new (s.mapNew_positive checked.info)).mpr ⟨checked.new, checked.newRefs⟩
    exact ⟨checked.size, checked.info, checked.triedSize, checked.newSize, ∅, ran, last, new_ran,
      rfl, zero⟩

theorem check_ok (s : CAddrMan) : s.check = .ok () ↔ s.Checked ∧ s.nKey ≠ 0 := by
  simp only [check, Except.bind_ok, exists_unit, checkTables_ok, demand_ok, decide_eq_true_eq]

theorem Checked.check_eq {s : CAddrMan} (checked : s.Checked) :
    s.check = if s.nKey = 0 then .error (-16) else .ok () := by
  have tables := s.checkTables_ok.mpr checked
  by_cases null : s.nKey = 0 <;> simp [check, tables, demand, null, bind, Except.bind]

end CAddrMan

end CryptoYen
