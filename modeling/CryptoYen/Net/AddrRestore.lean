import CryptoYen.Net.AddrRoundTrip
import CryptoYen.Net.AddrRuns

set_option autoImplicit false

namespace CryptoYen

namespace CAddrMan

open PartialMap

def seen (s : CAddrMan) : Nat → Option (CAddrInfo × Int × Bool) :=
  projected (fun info => some (info.stored, info.nRefCount, info.fInTried)) s.mapInfo

theorem seen_some (s : CAddrMan) (nId : Nat) (stored : CAddrInfo) (refs : Int) (tried : Bool) :
    s.seen nId = some (stored, refs, tried) ↔
      ∃ info, s.mapInfo.lookup nId = some info ∧ info.stored = stored ∧ info.nRefCount = refs ∧
        info.fInTried = tried := by
  simp [seen, projected, Option.bind_eq_some_iff, Prod.ext_iff]

theorem seen_fresh (s : CAddrMan) (nId : Nat) (fresh : s.seen nId = none) :
    s.mapInfo.lookup nId = none := by
  cases known : s.mapInfo.lookup nId with
  | none => rfl
  | some info => simp [seen, projected, known] at fresh

section Entries

variable [AddrHasher]

theorem readAllNew_spec (s : CAddrMan) (n : Nat) (infos : List CAddrInfo)
    (fresh : ∀ i, s.seen (n + i) = none) :
    ∃ t, readAllNew true s n (infos.map CAddrInfo.stored) = t ∧ t.nKey = s.nKey ∧
      t.nNew = s.nNew ∧ t.vvTried = s.vvTried ∧ t.vvNew = s.vvNew ∧
      (∀ m, m < n → t.seen m = s.seen m) ∧
      ∀ i, t.seen (n + i) = infos[i]?.map fun info => (info.stored, 0, false) := by
  induction infos generalizing s n with
  | nil => exact ⟨s, rfl, rfl, rfl, rfl, rfl, fun _ _ => rfl, by simpa using fresh⟩
  | cons info rest ih =>
      have unknown := s.seen_fresh n (fresh 0)
      have placed : (s.readNew true n info.stored).seen =
          Function.update s.seen n (some (info.stored, 0, false)) := by
        simp only [seen, readNew, projected_insert, unknown]
        rfl
      have later : ∀ i, (s.readNew true n info.stored).seen (n + 1 + i) = none := by
        intro i
        have above := fresh (1 + i)
        rw [placed, Function.update_of_ne (by omega), Nat.add_assoc, above]
      obtain ⟨t, read, key, count, tried, new, below, above⟩ := ih _ (n + 1) later
      refine ⟨t, read, key, count, tried, new.trans (by simp [readNew]), fun m less => ?_,
        fun i => ?_⟩
      · rw [below m (by omega), placed, Function.update_of_ne (by omega)]
      · cases i with
        | zero => rw [Nat.add_zero, below n (by omega), placed, Function.update_self]; rfl
        | succ i =>
            have shifted : n + (i + 1) = n + 1 + i := by omega
            rw [shifted, above i, List.getElem?_cons_succ]

theorem readAllTried_spec (s : CAddrMan) (nLost : Int) (infos : List CAddrInfo)
    (fresh : ∀ i, s.seen (s.nIdCount + i) = none)
    (distinct : (infos.map fun info => info.triedSlot s.nKey).Nodup)
    (free : ∀ info ∈ infos, s.vvTried (info.triedSlot s.nKey) = none) :
    ∃ t, readAllTried s nLost (infos.map CAddrInfo.stored) = (t, nLost) ∧ t.nKey = s.nKey ∧
      t.nNew = s.nNew ∧ t.vvNew = s.vvNew ∧
      (∀ m, m < s.nIdCount → t.seen m = s.seen m) ∧
      (∀ i, t.seen (s.nIdCount + i) = infos[i]?.map fun info => (info.stored, 0, true)) ∧
      (∀ i info, infos[i]? = some info →
        t.vvTried (info.triedSlot s.nKey) = some (s.nIdCount + i)) ∧
      ∀ slot, (∀ info ∈ infos, info.triedSlot s.nKey ≠ slot) → t.vvTried slot = s.vvTried slot := by
  induction infos generalizing s with
  | nil =>
      refine ⟨s, rfl, rfl, rfl, rfl, fun _ _ => rfl, by simpa using fresh, ?_, fun _ _ => rfl⟩
      exact fun i info present => by cases present
  | cons info rest ih =>
      obtain ⟨own, others⟩ := List.nodup_cons.mp distinct
      obtain ⟨here, later⟩ := List.forall_mem_cons.mp free
      obtain ⟨mid, is_mid⟩ : ∃ mid, mid = (s.readTried nLost info.stored).1 := ⟨_, rfl⟩
      have empty : s.vvTried (info.stored.triedSlot s.nKey) = none := here
      have read : s.readTried nLost info.stored = (mid, nLost) := by
        rw [is_mid, readTried, if_pos empty]
      have mid_key : mid.nKey = s.nKey := by rw [is_mid, readTried, if_pos empty]
      have mid_new : mid.nNew = s.nNew := by rw [is_mid, readTried, if_pos empty]
      have mid_slots : mid.vvNew = s.vvNew := by rw [is_mid, readTried, if_pos empty]
      have mid_count : mid.nIdCount = s.nIdCount + 1 := by rw [is_mid, readTried, if_pos empty]
      have mid_tried : mid.vvTried =
          Function.update s.vvTried (info.triedSlot s.nKey) (some s.nIdCount) := by
        rw [is_mid, readTried, if_pos empty]
        rfl
      have placed : mid.seen =
          Function.update s.seen s.nIdCount (some (info.stored, 0, true)) := by
        rw [is_mid, readTried, if_pos empty]
        simp only [seen, projected_insert]
        rfl
      have mid_fresh : ∀ i, mid.seen (mid.nIdCount + i) = none := by
        intro i
        have above := fresh (1 + i)
        rw [placed, Function.update_of_ne (by omega), mid_count, Nat.add_assoc, above]
      have mid_free : ∀ other ∈ rest, mid.vvTried (other.triedSlot mid.nKey) = none := by
        intro other member
        have apart : other.triedSlot s.nKey ≠ info.triedSlot s.nKey :=
          fun same => own (List.mem_map.mpr ⟨other, member, same⟩)
        rw [mid_tried, mid_key, Function.update_of_ne apart, later other member]
      obtain ⟨t, read_rest, key, new, slots, below, above, held, kept⟩ :=
        ih mid mid_fresh (mid_key ▸ others) mid_free
      rw [mid_key] at key held kept
      refine ⟨t, ?_, key, new.trans mid_new, slots.trans mid_slots, ?_, ?_, ?_, ?_⟩
      · rw [List.map_cons, readAllTried, read]
        exact read_rest
      · intro m less
        rw [below m (by omega), placed, Function.update_of_ne (by omega)]
      · intro i
        cases i with
        | zero =>
            rw [Nat.add_zero, below s.nIdCount (by omega), placed, Function.update_self]
            rfl
        | succ i =>
            have shifted : s.nIdCount + (i + 1) = mid.nIdCount + i := by omega
            rw [shifted, above i, List.getElem?_cons_succ]
      · intro i other present
        cases i with
        | zero =>
            cases present
            have apart : ∀ later ∈ rest, later.triedSlot s.nKey ≠ info.triedSlot s.nKey :=
              fun later member same => own (List.mem_map.mpr ⟨later, member, same⟩)
            rw [kept _ apart, mid_tried, Function.update_self]
            rfl
        | succ i =>
            rw [held i other (by simpa using present), mid_count]
            exact congrArg some (by omega)
      · intro slot apart
        obtain ⟨first, after⟩ := List.forall_mem_cons.mp apart
        rw [kept slot after, mid_tried, Function.update_of_ne first.symm]

end Entries

section Buckets

variable [AddrHasher] {s : CAddrMan}

def readSlot (s t : CAddrMan) (slot : NewSlot) : CAddrMan :=
  match s.vvNew slot with
  | none => t
  | some nId => readIndex true slot.1.val t (s.newIndex nId)

omit [AddrHasher] in
theorem zipIdx_finRange {A : Type} (n : Nat) (f : Fin n → A) :
    ((List.finRange n).map f).zipIdx = (List.finRange n).map fun i => (f i, i.val) :=
  List.ext_getElem (by simp) (by simp)

omit [AddrHasher] in
theorem foldl_product {A B C : Type} (as : List A) (bs : List B) (step : C → A × B → C) (c : C) :
    (as ×ˢ bs).foldl step c = as.foldl (fun c a => bs.foldl (fun c b => step c (a, b)) c) c := by
  have pairs : as ×ˢ bs = as.flatMap fun a => bs.map (Prod.mk a) := rfl
  rw [pairs, List.foldl_flatMap]
  simp only [List.foldl_map]

theorem readBuckets_eq (t : CAddrMan) :
    readBuckets true t s.peersFile.buckets = newSlots.foldl s.readSlot t := by
  rw [readBuckets, buckets_peersFile, zipIdx_finRange, newSlots, foldl_product, List.foldl_map]
  refine congrArg (fun step => List.foldl step t _) ?_
  funext t bucket
  simp only [writeBucket, List.foldl_filterMap]
  refine congrArg (fun step => List.foldl step t _) ?_
  funext t i
  unfold readSlot
  cases s.vvNew (bucket, i) <;> rfl

structure Rebuilt (s start t : CAddrMan) (done : List NewSlot) : Prop where
  key : t.nKey = s.nKey
  new : t.nNew = s.nNew
  tried : t.vvTried = start.vvTried
  slots : ∀ slot, t.vvNew slot = if slot ∈ done then (s.vvNew slot).map s.newIndex else none
  entries : ∀ nId info, s.mapInfo.lookup nId = some info → info.fInTried = false →
    t.seen (s.newIndex nId) = some (info.stored, ((done.filterMap s.vvNew).count nId : Int), false)
  others : ∀ m : Nat, s.nNew ≤ m → t.seen m = start.seen m

omit [AddrHasher] in
theorem newIndex_injective (nId other : Nat) (info found : CAddrInfo)
    (known : s.mapInfo.lookup nId = some info) (there : s.mapInfo.lookup other = some found)
    (referenced : info.nRefCount ≠ 0) (counted : found.nRefCount ≠ 0)
    (same : s.newIndex nId = s.newIndex other) : nId = other := by
  have first := newIndex_entry nId info known referenced
  have second := newIndex_entry other found there counted
  rw [same, second] at first
  exact (congrArg Prod.fst (Option.some.inj first)).symm

theorem Rebuilt.readIndex_eq {start t : CAddrMan} {done : List NewSlot} (checked : s.Checked)
    (rebuilt : Rebuilt s start t done) (slot : NewSlot) (rest : List NewSlot)
    (all : newSlots = done ++ slot :: rest) (nId : Nat) (used : s.vvNew slot = some nId)
    (info found : CAddrInfo) (known : s.mapInfo.lookup nId = some info)
    (untried : info.fInTried = false)
    (there : t.mapInfo.lookup (s.newIndex nId) = some found) (stored : found.stored = info.stored)
    (refs : found.nRefCount = ((done.filterMap s.vvNew).count nId : Int)) :
    readIndex true slot.1.val t (s.newIndex nId) =
      { t.update (s.newIndex nId) { found with nRefCount := found.nRefCount + 1 } with
        vvNew := Function.update t.vvNew slot (some (s.newIndex nId)) } := by
  obtain ⟨same, here, _, referenced, place⟩ := checked.newAt slot nId used
  rw [known] at here
  cases here
  have within := (List.getElem?_eq_some_iff.mp (newIndex_entry nId info known referenced)).1
  have length := checked.newEntries_length
  have range : 0 ≤ (s.newIndex nId : Int) ∧ (s.newIndex nId : Int) < t.nNew := by
    rw [rebuilt.new]
    omega
  have bucket : Fin.ofNat ADDRMAN_NEW_BUCKET_COUNT slot.1.val = slot.1 :=
    Fin.ext (Nat.mod_eq_of_lt slot.1.isLt)
  have position : found.newPosition t.nKey slot.1 = slot.2 := by
    have moved : found.newPosition t.nKey slot.1 = found.stored.newPosition t.nKey slot.1 := rfl
    rw [moved, stored, rebuilt.key]
    exact place
  have fresh : slot ∉ done := by
    have distinct := newSlots_nodup
    rw [all] at distinct
    exact fun inside => (List.nodup_append.mp distinct).2.2 slot inside slot List.mem_cons_self rfl
  have empty : t.vvNew slot = none := by rw [rebuilt.slots, if_neg fresh]
  have room : found.nRefCount < ADDRMAN_NEW_BUCKETS_PER_ADDRESS := by
    obtain ⟨total, limit⟩ := checked.refs_le nId info known untried
    have counted := count_filterMap s.vvNew nId newSlots newSlots_nodup mem_newSlots
    rw [all, List.filterMap_append, List.filterMap_cons_some used, List.count_append,
      List.count_cons_self] at counted
    omega
  simp only [readIndex, if_pos range, Int.toNat_natCast, there, Option.getD_some, bucket, position]
  rw [if_pos ⟨trivial, empty, room⟩]

theorem Rebuilt.step {start t : CAddrMan} {done : List NewSlot} (checked : s.Checked)
    (rebuilt : Rebuilt s start t done) (slot : NewSlot) (rest : List NewSlot)
    (all : newSlots = done ++ slot :: rest) :
    Rebuilt s start (s.readSlot t slot) (done ++ [slot]) := by
  unfold readSlot
  cases used : s.vvNew slot with
  | none =>
      refine ⟨rebuilt.key, rebuilt.new, rebuilt.tried, fun other => ?_, fun nId info known untried => ?_,
        rebuilt.others⟩
      · rw [rebuilt.slots other]
        by_cases same : other = slot
        next => simp [same, used]
        next => simp [same]
      · rw [rebuilt.entries nId info known untried]
        simp [used]
  | some nId =>
      obtain ⟨info, known, untried, referenced, _⟩ := checked.newAt slot nId used
      obtain ⟨found, there, stored, refs, status⟩ :=
        (t.seen_some _ _ _ _).mp (rebuilt.entries nId info known untried)
      have written := rebuilt.readIndex_eq checked slot rest all nId used info found known untried
        there stored refs
      simp only [written]
      have within := (List.getElem?_eq_some_iff.mp (newIndex_entry nId info known referenced)).1
      have length := checked.newEntries_length
      have counted : seen
          { t.update (s.newIndex nId) { found with nRefCount := found.nRefCount + 1 } with
            vvNew := Function.update t.vvNew slot (some (s.newIndex nId)) } =
          Function.update t.seen (s.newIndex nId)
            (some (info.stored, found.nRefCount + 1, false)) := by
        rw [← stored, ← status]
        exact projected_insert _ _ _ _
      refine ⟨rebuilt.key, rebuilt.new, rebuilt.tried, fun other => ?_,
        fun other entry present fresh => ?_, fun m above => ?_⟩
      · simp only [Function.update_apply]
        split
        next same => simp [same, used]
        next differs => simp [rebuilt.slots other, differs]
      · rw [counted]
        by_cases same : other = nId
        next =>
          rw [same, known] at present
          cases present
          rw [same, Function.update_self, refs]
          simp [List.filterMap_append, used, List.count_append]
        next =>
          have both := (checked.untried_iff other entry present).mpr fresh
          have apart : s.newIndex other ≠ s.newIndex nId := fun equal =>
            same (newIndex_injective other nId entry info present known both referenced equal)
          rw [Function.update_of_ne apart, rebuilt.entries other entry present fresh]
          simp [List.filterMap_append, used, List.count_append, Ne.symm same]
      · rw [counted, Function.update_of_ne (by omega), rebuilt.others m above]

theorem Rebuilt.run {start t : CAddrMan} {done : List NewSlot} (checked : s.Checked)
    (rebuilt : Rebuilt s start t done) (rest : List NewSlot) (all : newSlots = done ++ rest) :
    Rebuilt s start (rest.foldl s.readSlot t) newSlots := by
  induction rest generalizing t done with
  | nil =>
      rw [List.append_nil] at all
      rw [all]
      exact rebuilt
  | cons slot rest ih =>
      have next := rebuilt.step checked slot rest all
      exact ih next (by rw [all, List.append_assoc, List.singleton_append])

end Buckets

section Whole

variable [AddrHasher] {s : CAddrMan}

theorem Checked.triedPlace (checked : s.Checked) (nId : Nat) (info : CAddrInfo)
    (known : s.mapInfo.lookup nId = some info) (tried : info.fInTried = true) :
    s.vvTried (info.triedSlot s.nKey) = some nId := by
  have once := checked.triedOnce nId
  rw [if_pos ((s.mem_setTried nId).mpr ⟨info, known, tried⟩)] at once
  have positive : 0 < count s.vvTried nId := by omega
  obtain ⟨slot, used⟩ := exists_of_count_pos _ _ positive
  obtain ⟨found, there, _, place⟩ := checked.triedAt slot nId used
  rw [known] at there
  cases there
  rw [place]
  exact used

omit [AddrHasher] in
theorem mem_triedEntries (nId : Nat) (info : CAddrInfo) :
    (nId, info) ∈ s.triedEntries ↔ s.mapInfo.lookup nId = some info ∧ info.fInTried = true := by
  rw [triedEntries, List.mem_filter, mem_infos]

omit [AddrHasher] in
theorem mem_newEntries (nId : Nat) (info : CAddrInfo) :
    (nId, info) ∈ s.newEntries ↔ s.mapInfo.lookup nId = some info ∧ info.nRefCount ≠ 0 := by
  rw [newEntries, List.mem_filter, mem_infos, decide_eq_true_eq]

theorem Checked.triedSlots_nodup (checked : s.Checked) :
    ((s.triedEntries.map Prod.snd).map fun info => info.triedSlot s.nKey).Nodup := by
  have distinct : (s.triedEntries.map Prod.fst).Nodup :=
    (Codec.sortedEntries_distinct id s.mapInfo).sublist (List.filter_sublist.map Prod.fst)
  rw [List.map_map]
  refine distinct.of_map.map_on fun (nId, info) here (other, found) there same => ?_
  obtain ⟨known, tried⟩ := (mem_triedEntries nId info).mp here
  obtain ⟨present, status⟩ := (mem_triedEntries other found).mp there
  have first := checked.triedPlace nId info known tried
  have second := checked.triedPlace other found present status
  have slots : info.triedSlot s.nKey = found.triedSlot s.nKey := same
  rw [slots, second] at first
  cases first
  rw [known] at present
  cases present
  rfl

omit [AddrHasher] in
theorem newIndex_of_entry (m : Nat) (nId : Nat) (info : CAddrInfo)
    (here : s.newEntries[m]? = some (nId, info)) : s.newIndex nId = m := by
  have distinct : (s.newEntries.map Prod.fst).Nodup :=
    (Codec.sortedEntries_distinct id s.mapInfo).sublist (List.filter_sublist.map Prod.fst)
  obtain ⟨known, referenced⟩ := (mem_newEntries nId info).mp (List.mem_of_getElem? here)
  have there := newIndex_entry nId info known referenced
  obtain ⟨within, _⟩ := List.getElem?_eq_some_iff.mp there
  exact (List.getElem?_inj within distinct.of_map).mp (there.trans here.symm)

/-- The entries after the file is read: those of the new table under their indexes, then those of
the tried one. -/
structure Reread (s t : CAddrMan) : Prop where
  key : t.nKey = s.nKey
  new : ∀ m nId info, s.newEntries[m]? = some (nId, info) →
    t.seen m = some (info.stored, info.nRefCount, false)
  tried : ∀ i, t.seen (s.newEntries.length + i) =
    s.triedEntries[i]?.map fun entry => (entry.2.stored, 0, true)
  newSlots : ∀ slot, t.vvNew slot = (s.vvNew slot).map s.newIndex
  triedSlots : ∀ i nId info, s.triedEntries[i]? = some (nId, info) →
    t.vvTried (info.triedSlot s.nKey) = some (s.newEntries.length + i)
  triedFree : ∀ slot, s.vvTried slot = none → t.vvTried slot = none

theorem Checked.reread (checked : s.Checked) (base : CAddrMan) (empty : base.mapInfo = ∅)
    (key : base.nKey = s.nKey) (counted : base.nNew = s.nNew)
    (tried : ∀ slot, base.vvTried slot = none) (new : ∀ slot, base.vvNew slot = none) :
    ∃ t, readAllTried
        { readAllNew true base 0 s.peersRead.infosNew with nIdCount := s.nNew.toNat } 0
        s.peersRead.infosTried = (t, 0) ∧
      Reread s (readBuckets true { t with nTried := t.nTried - 0 } s.peersRead.buckets) := by
  have length := checked.newEntries_length
  have ids : s.nNew.toNat = s.newEntries.length := by omega
  have infosNew : s.peersRead.infosNew = (s.newEntries.map Prod.snd).map CAddrInfo.stored := by
    simp only [peersRead, List.map_map]
    rfl
  have infosTried : s.peersRead.infosTried =
      (s.triedEntries.map Prod.snd).map CAddrInfo.stored := by
    simp only [peersRead, List.map_map]
    rfl
  have unseen : ∀ i, base.seen (0 + i) = none := by simp [seen, projected, empty]
  obtain ⟨a, read_a, a_key, a_count, a_tried, a_new, _, a_seen⟩ :=
    readAllNew_spec base 0 (s.newEntries.map Prod.snd) unseen
  simp only [Nat.zero_add, List.getElem?_map, Option.map_map] at a_seen
  let fresh_ids : CAddrMan := { a with nIdCount := s.nNew.toNat }
  have above : ∀ i, fresh_ids.seen (fresh_ids.nIdCount + i) = none := by
    intro i
    refine (a_seen _).trans ?_
    rw [List.getElem?_eq_none (by simp only [fresh_ids]; omega)]
    rfl
  have a_free : ∀ info ∈ s.triedEntries.map Prod.snd,
      fresh_ids.vvTried (info.triedSlot fresh_ids.nKey) = none := by
    intro info _
    exact (congrFun a_tried _).trans (tried _)
  have slot_key : fresh_ids.nKey = s.nKey := a_key.trans key
  obtain ⟨b, read_b, b_key, b_count, b_new, below, b_seen, held, kept⟩ :=
    readAllTried_spec fresh_ids 0 (s.triedEntries.map Prod.snd) above
      (by rw [slot_key]; exact checked.triedSlots_nodup) a_free
  refine ⟨b, by rw [infosNew, read_a, infosTried]; exact read_b, ?_⟩
  let start : CAddrMan := { b with nTried := b.nTried - 0 }
  have started : Rebuilt s start start [] := by
    refine ⟨b_key.trans slot_key, b_count.trans (a_count.trans counted), rfl, fun slot => ?_,
      fun nId info known untried => ?_, fun _ _ => rfl⟩
    · exact (congrFun b_new slot).trans ((congrFun a_new slot).trans (new slot))
    · have referenced := (checked.untried_iff nId info known).mpr untried
      have entry := newIndex_entry nId info known referenced
      have within := (List.getElem?_eq_some_iff.mp entry).1
      have inside : s.newIndex nId < fresh_ids.nIdCount := by
        simp only [fresh_ids]
        omega
      refine (below _ inside).trans ((a_seen _).trans ?_)
      rw [entry]
      rfl
  have rebuilt := started.run checked newSlots (List.nil_append newSlots).symm
  rw [← readBuckets_eq] at rebuilt
  have buckets : s.peersRead.buckets = s.peersFile.buckets := by simp only [peersRead]
  rw [buckets]
  have all (nId : Nat) : (newSlots.filterMap s.vvNew).count nId = count s.vvNew nId :=
    count_filterMap s.vvNew nId newSlots newSlots_nodup mem_newSlots
  constructor
  · exact rebuilt.key
  · intro m nId info here
    obtain ⟨known, referenced⟩ := (mem_newEntries nId info).mp (List.mem_of_getElem? here)
    have untried := (checked.untried_iff nId info known).mp referenced
    have entry := rebuilt.entries nId info known untried
    rw [newIndex_of_entry m nId info here, all] at entry
    rw [(checked.refs_le nId info known untried).1]
    exact entry
  · intro i
    rw [rebuilt.others _ (by omega), ← ids]
    refine (b_seen i).trans ?_
    rw [List.getElem?_map, Option.map_map]
    rfl
  · intro slot
    rw [rebuilt.slots slot, if_pos (mem_newSlots slot)]
  · intro i nId info here
    rw [rebuilt.tried, ← ids, ← slot_key]
    exact held i info (by rw [List.getElem?_map, here]; rfl)
  · intro slot free
    rw [rebuilt.tried]
    refine (kept slot fun info member same => ?_).trans ((congrFun a_tried slot).trans (tried slot))
    obtain ⟨⟨nId, found⟩, listed, rfl⟩ := List.mem_map.mp member
    obtain ⟨known, status⟩ := (mem_triedEntries nId found).mp listed
    have used := checked.triedPlace nId found known status
    rw [slot_key] at same
    rw [same, free] at used
    cases used

omit [AddrHasher] in
theorem prune_none (t : CAddrMan) (nLostUnk : Int) (entries : List (Nat × CAddrInfo))
    (placed : ∀ entry ∈ entries, ¬ (entry.2.fInTried = false ∧ entry.2.nRefCount = 0)) :
    prune t nLostUnk entries = some (t, nLostUnk) := by
  induction entries with
  | nil => rfl
  | cons entry rest ih =>
      obtain ⟨here, later⟩ := List.forall_mem_cons.mp placed
      rw [prune, if_neg here]
      exact ih later

theorem Reread.seen_cases {t : CAddrMan} (reread : Reread s t) (m : Nat) (stored : CAddrInfo)
    (refs : Int) (tried : Bool) (known : t.seen m = some (stored, refs, tried)) :
    ∃ nId info, s.mapInfo.lookup nId = some info ∧ info.stored = stored ∧
      ((tried = false ∧ info.nRefCount ≠ 0 ∧ refs = info.nRefCount) ∨
        (tried = true ∧ info.fInTried = true)) := by
  by_cases low : m < s.newEntries.length
  next =>
    have here := List.getElem?_eq_getElem low
    have entry := reread.new m _ _ here
    rw [known] at entry
    obtain ⟨present, referenced⟩ := (mem_newEntries _ _).mp (List.mem_of_getElem? here)
    cases entry
    exact ⟨_, _, present, rfl, Or.inl ⟨rfl, referenced, rfl⟩⟩
  next =>
    obtain ⟨i, rfl⟩ := Nat.exists_eq_add_of_le (Nat.not_lt.mp low)
    rw [reread.tried i] at known
    obtain ⟨⟨nId, info⟩, here, same⟩ := Option.map_eq_some_iff.mp known
    obtain ⟨present, status⟩ := (mem_triedEntries nId info).mp (List.mem_of_getElem? here)
    cases same
    exact ⟨nId, info, present, rfl, Or.inr ⟨rfl, status⟩⟩

def triedEntry (s : CAddrMan) (slot : TriedSlot) : Option CAddrInfo :=
  (s.vvTried slot).bind fun nId => (s.mapInfo.lookup nId).map CAddrInfo.stored

def newEntry (s : CAddrMan) (slot : NewSlot) : Option CAddrInfo :=
  (s.vvNew slot).bind fun nId => (s.mapInfo.lookup nId).map CAddrInfo.stored

def tableOf (s : CAddrMan) (tried : Bool) : Set CAddrInfo :=
  { stored | ∃ nId info, s.mapInfo.lookup nId = some info ∧ info.fInTried = tried ∧
    info.stored = stored }

/-- The same key and entries, in the same tables and slots, under whatever ids. -/
structure SameAddresses (s t : CAddrMan) : Prop where
  key : t.nKey = s.nKey
  tried : t.tableOf true = s.tableOf true
  new : t.tableOf false = s.tableOf false
  triedSlots : ∀ slot, t.triedEntry slot = s.triedEntry slot
  newSlots : ∀ slot, t.newEntry slot = s.newEntry slot

theorem Reread.tableOf_iff {t : CAddrMan} (checked : s.Checked) (reread : Reread s t)
    (tried : Bool) : t.tableOf tried = s.tableOf tried := by
  ext stored
  constructor
  · intro ⟨nId, info, known, status, same⟩
    have there := (t.seen_some nId stored info.nRefCount tried).mpr ⟨info, known, same, rfl, status⟩
    obtain ⟨other, found, present, equal, table⟩ := reread.seen_cases nId stored _ tried there
    refine ⟨other, found, present, ?_, equal⟩
    cases table with
    | inl new => exact new.1 ▸ (checked.untried_iff other found present).mp new.2.1
    | inr old => exact old.1 ▸ old.2
  · intro ⟨nId, info, known, status, same⟩
    cases tried with
    | true =>
        obtain ⟨i, here⟩ := List.getElem?_of_mem ((mem_triedEntries nId info).mpr ⟨known, status⟩)
        have there := reread.tried i
        rw [here] at there
        obtain ⟨found, present, equal, _, table⟩ := (t.seen_some _ _ _ _).mp there
        exact ⟨_, found, present, table, equal.trans same⟩
    | false =>
        have referenced := (checked.untried_iff nId info known).mpr status
        have there := reread.new _ nId info (newIndex_entry nId info known referenced)
        obtain ⟨found, present, equal, _, table⟩ := (t.seen_some _ _ _ _).mp there
        exact ⟨_, found, present, table, equal.trans same⟩

theorem Reread.triedEntry_eq {t : CAddrMan} (checked : s.Checked) (reread : Reread s t)
    (slot : TriedSlot) : t.triedEntry slot = s.triedEntry slot := by
  unfold triedEntry
  cases used : s.vvTried slot with
  | none =>
      rw [reread.triedFree slot used]
      rfl
  | some nId =>
      obtain ⟨info, known, tried, place⟩ := checked.triedAt slot nId used
      obtain ⟨i, here⟩ := List.getElem?_of_mem ((mem_triedEntries nId info).mpr ⟨known, tried⟩)
      have there := reread.tried i
      rw [here] at there
      obtain ⟨found, present, equal, _⟩ := (t.seen_some _ _ _ _).mp there
      rw [← place, reread.triedSlots i nId info here]
      simp [present, known, equal]

theorem Reread.newEntry_eq {t : CAddrMan} (checked : s.Checked) (reread : Reread s t)
    (slot : NewSlot) : t.newEntry slot = s.newEntry slot := by
  unfold newEntry
  rw [reread.newSlots slot]
  cases used : s.vvNew slot with
  | none => rfl
  | some nId =>
      obtain ⟨info, known, _, referenced, _⟩ := checked.newAt slot nId used
      have there := reread.new _ nId info (newIndex_entry nId info known referenced)
      obtain ⟨found, present, equal, _⟩ := (t.seen_some _ _ _ _).mp there
      simp [present, known, equal]

/-- A manager that passes Check_ is read back with all its entries in their slots, none lost. -/
theorem unserialize_serialize (s : CAddrMan) (passed : s.check = .ok ()) (nKey drawn : Uint256)
    (rest : List UInt8) :
    ∃ file t, s.serialize = some file ∧
      unserialize (initial nKey) drawn (Format.peersFile.write file ++ rest) =
        .ok (some (t, 0, 0), rest) ∧ SameAddresses s t := by
  have checked := (s.check_ok.mp passed).1
  let base : CAddrMan :=
    { (initial nKey).clear drawn with nKey := s.nKey, nNew := s.nNew, nTried := s.nTried }
  obtain ⟨b, read, reread⟩ :=
    checked.reread base rfl rfl rfl (fun _ => rfl) (fun _ => rfl)
  obtain ⟨t, is_t⟩ : ∃ t,
      readBuckets true { b with nTried := b.nTried - 0 } s.peersRead.buckets = t := ⟨_, rfl⟩
  rw [is_t] at reread
  have kept : prune t 0 t.infos = some (t, 0) := by
    refine prune_none t 0 t.infos fun (m, info) member unplaced => ?_
    have known := (t.mem_infos m info).mp member
    have there := (t.seen_some m info.stored info.nRefCount info.fInTried).mpr
      ⟨info, known, rfl, rfl, rfl⟩
    obtain ⟨_, _, _, _, table⟩ := reread.seen_cases m _ _ _ there
    rw [unplaced.1, unplaced.2] at table
    cases table with
    | inl new => exact new.2.1 new.2.2.symm
    | inr old => cases old.1
  have usable : (s.peersRead.nVersion == 1 &&
      s.peersRead.bucketCount == (ADDRMAN_NEW_BUCKET_COUNT : Int)) = true := by
    have count : s.peersRead.bucketCount = ADDRMAN_NEW_BUCKET_COUNT := bucketCount_peersFile
    have version : s.peersRead.nVersion = 1 := rfl
    rw [version, count]
    decide
  have restored : (initial nKey).restore drawn s.peersRead = some (t, 0, 0) := by
    rw [restore, usable]
    have read_base : readAllTried
        { readAllNew true
            { (initial nKey).clear drawn with
              nKey := s.peersRead.nKey
              nNew := s.peersRead.nNew
              nTried := s.peersRead.nTried } 0 s.peersRead.infosNew with
          nIdCount := s.peersRead.nNew.toNat } 0 s.peersRead.infosTried = (b, 0) := read
    simp only [read_base, is_t, kept, Option.map_some]
  refine ⟨s.peersFile, t, checked.serialize, ?_, reread.key, reread.tableOf_iff checked true,
    reread.tableOf_iff checked false, reread.triedEntry_eq checked, reread.newEntry_eq checked⟩
  rw [unserialize, checked.read rest]
  simp only [bind, Except.bind, restored]
  rfl

omit [AddrHasher] in
theorem unserialize_crowded :
    ∃ s file t, Machine.run (@step crowdedHasher) (initial 1) crowdedCalls = some s ∧
      s.serialize = some file ∧
      @unserialize crowdedHasher (initial 2) 3 (Format.peersFile.write file ++ [0]) =
        .ok (some (t, 0, 0), [0]) ∧ SameAddresses s t := by
  obtain ⟨s, ran, inv, key⟩ := @run_between crowdedHasher 1 crowdedCalls crowdedCalls_positive
  have passed : @check crowdedHasher s = .ok () := by
    let hasher := crowdedHasher
    rw [inv.checked.check_eq, key]
    decide
  obtain ⟨file, t, written, read, same⟩ :=
    @unserialize_serialize crowdedHasher s passed 2 3 [0]
  exact ⟨s, file, t, ran, written, read, same⟩

end Whole

end CAddrMan

end CryptoYen
