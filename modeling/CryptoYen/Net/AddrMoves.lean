import CryptoYen.Net.AddrEntries

set_option autoImplicit false

namespace CryptoYen.CAddrMan

open PartialMap

variable [AddrHasher] {s : CAddrMan} {free : Set Nat} {owed : Int}

theorem Between.fresh (inv : s.Between free owed) : s.mapInfo.lookup s.nIdCount = none := by
  cases known : s.mapInfo.lookup s.nIdCount with
  | none => rfl
  | some info => exact absurd (inv.listed.below s.nIdCount info known) (Nat.lt_irrefl _)

theorem Between.create (inv : s.Between ∅ 0) (addr : CAddress) (source : CNetAddr)
    (unknown : s.mapAddr.lookup addr.ip = none) :
    (s.create addr source).2.Between {s.nIdCount} 1 := by
  have fresh := inv.fresh
  let info : CAddrInfo := { CAddrInfo.init addr source with nRandomPos := s.vRandom.length }
  have entry : (s.create addr source).2.mapInfo = s.mapInfo.insert s.nIdCount info := rfl
  constructor
  · constructor
    · have free_place : atPosition s.vRandom s.vRandom.length = none := by simp
      have no_place : s.positions s.nIdCount = none := by simp [positions, projected, fresh]
      have paired := inv.listed.random.pair _ _ free_place no_place
      rw [← atPosition_append] at paired
      rw [positions, entry, projected_insert]
      exact paired
    · have no_address : s.addresses s.nIdCount = none := by simp [addresses, projected, fresh]
      have paired := inv.listed.addr.pair addr.ip s.nIdCount unknown no_address
      rw [addresses, entry, projected_insert]
      rw [← lookup_insert_eq] at paired
      exact paired
    · rw [entry]
      exact Assoc.forall_lookup_insert s.mapInfo s.nIdCount info (Nat.lt_succ_self _)
        fun other found _ there => Nat.lt_succ_of_lt (inv.listed.below other found there)
  · constructor
    · have places : (s.create addr source).2.triedPlaces = s.triedPlaces := by
        have nowhere : none = s.triedPlaces s.nIdCount := by simp [triedPlaces, projected, fresh]
        rw [triedPlaces, entry, projected_insert]
        exact (congrArg _ nowhere).trans (Function.update_eq_self _ _)
      rw [places]
      exact inv.placed.tried
    · intro slot other used
      obtain ⟨found, there, untried, place⟩ := inv.placed.new slot other used
      have differs : other ≠ s.nIdCount := by
        intro same
        rw [same, fresh] at there
        cases there
      refine ⟨found, ?_, untried, place⟩
      rw [entry, Assoc.lookup_insert, if_neg differs, there]
    · rw [entry]
      refine Assoc.forall_lookup_insert s.mapInfo s.nIdCount info ?_
        fun other found _ => inv.placed.refs other found
      have nowhere : count s.vvNew s.nIdCount = 0 := by
        refine count_eq_zero _ _ fun slot used => ?_
        obtain ⟨found, there, _⟩ := inv.placed.new slot _ used
        rw [fresh] at there
        cases there
      exact (congrArg Nat.cast nowhere).symm
    · rw [entry]
      have room : (0 : Int) ≤ ADDRMAN_NEW_BUCKETS_PER_ADDRESS := by decide
      exact Assoc.forall_lookup_insert s.mapInfo s.nIdCount info room
        fun other found _ => inv.placed.limit other found
    · rw [entry]
      refine Assoc.forall_lookup_insert s.mapInfo s.nIdCount info ?_
        fun other found differs there untried taken => ?_
      · exact fun _ taken => absurd rfl taken
      · exact inv.placed.referenced other found there untried fun inside => inside
  · have tried_sum := Assoc.sumBy_insert triedMark s.mapInfo s.nIdCount info fresh
    have new_sum := Assoc.sumBy_insert newMark s.mapInfo s.nIdCount info fresh
    have tried := inv.counted.tried
    have new := inv.counted.new
    have no_mark : triedMark info = 0 := rfl
    have mark : newMark info = 1 := rfl
    constructor
    · rw [entry]
      exact tried.trans (by omega)
    · rw [entry]
      have same : (s.create addr source).2.nNew = s.nNew := rfl
      omega
  · have never : (0 : Int64) ≤ 0 := by decide
    exact inv.timed.edit entry never never fun tried => by cases tried

theorem Between.clearNew (inv : s.Between free owed) (slot : NewSlot) :
    ∃ t, s.clearNew slot = some t ∧ t.Between free owed ∧ t.nKey = s.nKey ∧
      t.vvTried = s.vvTried ∧ t.vvNew = Function.update s.vvNew slot none ∧
      ∀ other, s.vvNew slot ≠ some other → Keeps s t other := by
  unfold CAddrMan.clearNew
  cases used : s.vvNew slot with
  | none =>
      have same : s.vvNew = Function.update s.vvNew slot none := by
        rw [← used, Function.update_eq_self]
      exact ⟨s, rfl, inv, rfl, rfl, same, fun other _ => .refl s other⟩
  | some nId =>
      obtain ⟨info, known, untried, _⟩ := inv.placed.new slot nId used
      have positive : 0 < info.nRefCount := by
        have refs := inv.placed.refs nId info known
        have here := count_pos s.vvNew slot nId used
        omega
      have released := inv.release slot used known
      have there : (s.release slot nId info).mapInfo.lookup nId =
          some { info with nRefCount := info.nRefCount - 1 } := by
        simp [CAddrMan.release, update]
      have kept : ∀ other, other ≠ nId → Keeps s (s.release slot nId info) other :=
        fun other differs => .other rfl differs
      have wider : insert nId free \ {nId} ⊆ free := by
        intro other inside
        exact inside.1.resolve_left inside.2
      simp only [known, Option.bind_eq_bind, Option.bind_some, if_neg (Int.not_le.mpr positive)]
      split
      next last =>
        obtain ⟨t, deleted, t_inv, key, tried, new, others⟩ := released.delete there untried last
        refine ⟨t, deleted, t_inv.mono wider, key, tried, new, fun other apart => ?_⟩
        have differs : other ≠ nId := fun same => apart (same ▸ rfl)
        exact (kept other differs).trans (others other differs)
      next more =>
        have counted : 0 < info.nRefCount - 1 := by omega
        refine ⟨_, rfl, (released.claim there counted).mono wider, rfl, rfl, rfl,
          fun other apart => kept other fun same => apart (same ▸ rfl)⟩

theorem Between.leaveBucket {nId : Nat} {info : CAddrInfo} (inv : s.Between free owed)
    (allowed : nId ∈ free) (known : s.mapInfo.lookup nId = some info)
    (bucket : Fin ADDRMAN_NEW_BUCKET_COUNT) :
    (s.leaveBucket nId bucket).Between free owed ∧ (s.leaveBucket nId bucket).nKey = s.nKey ∧
      (∃ refs, (s.leaveBucket nId bucket).mapInfo.lookup nId =
        some { info with nRefCount := refs }) ∧
      ∀ slot, (s.leaveBucket nId bucket).vvNew slot = some nId →
        s.vvNew slot = some nId ∧ slot.1 ≠ bucket := by
  simp only [CAddrMan.leaveBucket, known]
  have place : ∀ slot, s.vvNew slot = some nId → slot.1 = bucket →
      slot = (bucket, info.newPosition s.nKey bucket) := by
    intro slot used here
    obtain ⟨found, there, _, position⟩ := inv.placed.new slot nId used
    rw [known] at there
    cases there
    rw [here] at position
    exact Prod.ext here position
  split
  next used =>
    have released := inv.release _ used known
    rw [Set.insert_eq_of_mem allowed] at released
    refine ⟨released, rfl, ⟨info.nRefCount - 1, ?_⟩, fun slot there => ?_⟩
    · simp [CAddrMan.release, update]
    · simp only [CAddrMan.release, Function.update_apply] at there
      split at there
      next => cases there
      next apart => exact ⟨there, fun here => apart (place slot there here)⟩
  next unused =>
    refine ⟨inv, rfl, ⟨info.nRefCount, known⟩, fun slot there => ⟨there, fun here => ?_⟩⟩
    exact unused (place slot there here ▸ there)

theorem Between.leaveEach {nId : Nat} {info : CAddrInfo} (inv : s.Between free owed)
    (allowed : nId ∈ free) (known : s.mapInfo.lookup nId = some info)
    (buckets : List (Fin ADDRMAN_NEW_BUCKET_COUNT)) :
    ∃ t, buckets.foldl (CAddrMan.leaveBucket nId) s = t ∧ t.Between free owed ∧
      t.nKey = s.nKey ∧ (∃ refs, t.mapInfo.lookup nId = some { info with nRefCount := refs }) ∧
      ∀ slot, t.vvNew slot = some nId → s.vvNew slot = some nId ∧ slot.1 ∉ buckets := by
  induction buckets generalizing s info with
  | nil =>
      refine ⟨s, rfl, inv, rfl, ⟨info.nRefCount, known⟩, fun slot used => ?_⟩
      exact ⟨used, List.not_mem_nil⟩
  | cons bucket rest ih =>
      obtain ⟨mid_inv, mid_key, ⟨refs, mid_known⟩, mid_slots⟩ :=
        inv.leaveBucket allowed known bucket
      obtain ⟨t, folded, t_inv, key, ⟨last, there⟩, slots⟩ := ih mid_inv mid_known
      refine ⟨t, folded, t_inv, key.trans mid_key, ⟨last, there⟩, ?_⟩
      intro slot used
      obtain ⟨mid_used, later⟩ := slots slot used
      obtain ⟨before, differs⟩ := mid_slots slot mid_used
      exact ⟨before, by simp [differs, later]⟩

theorem Between.leaveBuckets {nId : Nat} {info : CAddrInfo} (inv : s.Between free owed)
    (allowed : nId ∈ free) (known : s.mapInfo.lookup nId = some info) :
    ∃ t, s.leaveBuckets nId = t ∧ t.Between free owed ∧ t.nKey = s.nKey ∧
      t.mapInfo.lookup nId = some { info with nRefCount := 0 } := by
  obtain ⟨t, folded, t_inv, key, ⟨refs, there⟩, slots⟩ :=
    inv.leaveEach allowed known (List.finRange ADDRMAN_NEW_BUCKET_COUNT)
  have nowhere : count t.vvNew nId = 0 :=
    count_eq_zero _ _ fun slot used => (slots slot used).2 (List.mem_finRange slot.1)
  have none_left : refs = 0 := by
    have counted := t_inv.placed.refs nId _ there
    rw [nowhere] at counted
    exact counted
  rw [none_left] at there
  exact ⟨t, folded, t_inv, key, there⟩

theorem Placed.triedAt (placed : s.Placed free) (slot : TriedSlot) (nId : Nat)
    (used : s.vvTried slot = some nId) :
    ∃ info, s.mapInfo.lookup nId = some info ∧ info.fInTried = true ∧
      info.triedSlot s.nKey = slot ∧ info.nRefCount = 0 := by
  obtain ⟨info, known, marked⟩ := Option.bind_eq_some_iff.mp ((placed.tried slot nId).mp used)
  split at marked
  next status =>
    have nowhere : count s.vvNew nId = 0 := by
      refine count_eq_zero _ _ fun spot there => ?_
      obtain ⟨found, here, untried, _⟩ := placed.new spot nId there
      rw [known] at here
      cases here
      rw [status] at untried
      cases untried
    have refs := placed.refs nId info known
    exact ⟨info, known, status, Option.some.inj marked, by omega⟩
  next => cases marked

theorem Between.evict (inv : s.Between free owed) (slot : TriedSlot) :
    ∃ t, s.evict slot = some t ∧ t.Between free owed ∧ t.nKey = s.nKey ∧ t.vvTried slot = none ∧
      ∀ other, s.vvTried slot ≠ some other → (∀ spot, s.vvNew spot ≠ some other) →
        Keeps s t other := by
  unfold CAddrMan.evict
  cases used : s.vvTried slot with
  | none => exact ⟨s, rfl, inv, rfl, used, fun other _ _ => .refl s other⟩
  | some nId =>
      obtain ⟨info, known, status, _, unreferenced⟩ := inv.placed.triedAt slot nId used
      have demoted := inv.demote slot used known status
      have there : (s.leaveTried slot nId info).mapInfo.lookup nId =
          some { info with fInTried := false } := by
        simp [leaveTried, update]
      let spot := info.newSlot s.nKey info.source
      obtain ⟨mid, cleared, mid_inv, key, tried, new, kept⟩ := demoted.clearNew spot
      have apart := demoted.placed.unused there unreferenced
      obtain ⟨position, mid_known⟩ := kept nId (apart spot) _ there
      have empty : mid.vvNew spot = none := by rw [new, Function.update_self]
      have belongs : spot.2 = info.newPosition mid.nKey spot.1 := by rw [key]; rfl
      have room : info.nRefCount < ADDRMAN_NEW_BUCKETS_PER_ADDRESS := by
        rw [unreferenced]
        decide
      let final : CAddrMan :=
        { mid.update nId { info with fInTried := false, nRandomPos := position, nRefCount := 1 } with
          vvNew := Function.update mid.vvNew spot (some nId)
          nNew := mid.nNew + 1 }
      have entry : final.mapInfo = mid.mapInfo.insert nId
          { info with
            fInTried := false, nRandomPos := position, nRefCount := info.nRefCount + 1 } := by
        rw [unreferenced]
        rfl
      have counted : final.Counted owed := by
        refine mid_inv.counted.edit mid_known rfl rfl ?_
        simp only [final, newMark]
        omega
      have acquired := mid_inv.acquire spot empty mid_known rfl belongs room entry rfl rfl rfl
        (mid_inv.listed.edit mid_known rfl rfl rfl rfl rfl rfl) counted
      refine ⟨final, ?_, acquired.mono ?_, key, ?_, ?_⟩
      · simp [known, spot, cleared, mid_known, empty, final]
      · intro other inside
        exact inside.1.resolve_left inside.2
      · have emptied : mid.vvTried slot = none := by
          rw [tried]
          exact Function.update_self ..
        exact emptied
      · intro other differs nowhere
        have other_apart : other ≠ nId := fun same => differs (same ▸ rfl)
        have first : Keeps s (s.leaveTried slot nId info) other := .other rfl other_apart
        have second := kept other (nowhere spot)
        exact (first.trans second).trans (.other rfl other_apart)

theorem Between.enterTried {nId : Nat} {info : CAddrInfo} (inv : s.Between free owed)
    (known : s.mapInfo.lookup nId = some info) (untried : info.fInTried = false)
    (unreferenced : info.nRefCount = 0) (reached : info.nLastSuccess ≠ 0) :
    ∃ t, s.enterTried nId = some t ∧ t.Between (free \ {nId}) (owed - 1) ∧ t.nKey = s.nKey := by
  obtain ⟨mid, evicted, mid_inv, key, empty, kept⟩ := inv.evict (info.triedSlot s.nKey)
  have elsewhere : s.vvTried (info.triedSlot s.nKey) ≠ some nId := by
    intro used
    obtain ⟨found, here, tried, _⟩ := inv.placed.triedAt _ nId used
    rw [known] at here
    cases here
    rw [untried] at tried
    cases tried
  obtain ⟨position, there⟩ :=
    kept nId elsewhere (inv.placed.unused known unreferenced) info known
  rw [← key] at empty
  let final : CAddrMan :=
    { mid.update nId { info with nRandomPos := position, fInTried := true } with
      vvTried := Function.update mid.vvTried (info.triedSlot mid.nKey) (some nId)
      nTried := mid.nTried + 1 }
  have counted : final.Counted (owed - 1) := by
    refine mid_inv.counted.edit there rfl ?_ ?_
    · simp [final, triedMark, untried]
    · simp only [final, newMark, untried, update]
      exact (by omega : mid.nNew + (owed - 1) + 1 = mid.nNew + owed + 0)
  have promoted : final.Between (free \ {nId}) (owed - 1) :=
    mid_inv.promote there untried unreferenced reached empty rfl rfl rfl rfl
      (mid_inv.listed.edit there rfl rfl rfl rfl rfl rfl) counted
  refine ⟨final, ?_, promoted, key⟩
  rw [key] at empty
  simp [CAddrMan.enterTried, known, unreferenced, evicted, there, empty, final, key]

theorem Between.uncount (inv : s.Between free owed) : s.uncountNew.Between free (owed + 1) where
  listed := ⟨inv.listed.random, inv.listed.addr, inv.listed.below⟩
  placed := ⟨inv.placed.tried, inv.placed.new, inv.placed.refs, inv.placed.limit,
    inv.placed.referenced⟩
  counted := by
    refine ⟨inv.counted.tried, Eq.trans ?_ inv.counted.new⟩
    simp only [uncountNew]
    omega
  timed := inv.timed

theorem Between.makeTried {nId : Nat} {info : CAddrInfo} (inv : s.Consistent)
    (known : s.mapInfo.lookup nId = some info) (untried : info.fInTried = false)
    (reached : info.nLastSuccess ≠ 0) :
    ∃ t, s.makeTried nId = some t ∧ t.Consistent ∧ t.nKey = s.nKey := by
  have wider := inv.mono (Set.empty_subset {nId})
  obtain ⟨left, left_is, left_inv, left_key, there⟩ := wider.leaveBuckets rfl known
  have uncounted := left_inv.uncount
  obtain ⟨t, entered, t_inv, key⟩ := uncounted.enterTried there untried rfl reached
  rw [CAddrMan.makeTried, left_is]
  refine ⟨t, entered, ?_, key.trans left_key⟩
  rw [Set.sdiff_self, add_sub_cancel_right] at t_inv
  exact t_inv

theorem Between.enter {nId : Nat} {info : CAddrInfo} (inv : s.Between {nId} 0)
    (known : s.mapInfo.lookup nId = some info) (untried : info.fInTried = false)
    (room : info.nRefCount < ADDRMAN_NEW_BUCKETS_PER_ADDRESS) (source : CNetAddr)
    (nNow : Int64) :
    ∃ t, s.enter nId source nNow = some t ∧ t.Consistent ∧ t.nKey = s.nKey := by
  have claimed : ∀ {t : CAddrMan}, t.Between ({nId} \ {nId}) 0 → t.Consistent := by
    intro t t_inv
    rw [Set.sdiff_self] at t_inv
    exact t_inv
  unfold CAddrMan.enter
  simp only [known, Option.bind_eq_bind, Option.bind_some]
  split
  next here =>
    have refs := inv.placed.refs nId info known
    have positive := count_pos s.vvNew _ nId here
    exact ⟨s, rfl, claimed (inv.claim known (by omega)), rfl⟩
  next elsewhere =>
    split
    next =>
      obtain ⟨mid, cleared, mid_inv, key, tried, new, kept⟩ :=
        inv.clearNew (info.newSlot s.nKey source)
      obtain ⟨position, there⟩ := kept nId elsewhere info known
      have empty : mid.vvNew (info.newSlot s.nKey source) = none := by
        rw [new, Function.update_self]
      have belongs : (info.newSlot s.nKey source).2 =
          info.newPosition mid.nKey (info.newSlot s.nKey source).1 := by
        rw [key]
        rfl
      let final : CAddrMan :=
        { mid.update nId
            { info with nRandomPos := position, nRefCount := info.nRefCount + 1 } with
          vvNew := Function.update mid.vvNew (info.newSlot s.nKey source) (some nId) }
      have counted : final.Counted 0 := mid_inv.counted.same there rfl rfl rfl rfl
      have acquired : final.Between ({nId} \ {nId}) 0 :=
        mid_inv.acquire _ empty there untried belongs room rfl rfl rfl rfl
          (mid_inv.listed.edit there rfl rfl rfl rfl rfl rfl) counted
      refine ⟨final, ?_, claimed acquired, key⟩
      simp only [cleared, there, Option.bind_some, final]
    next =>
      split
      next unreferenced =>
        obtain ⟨t, deleted, t_inv, key, _⟩ := inv.delete known untried unreferenced
        exact ⟨t, deleted, claimed t_inv, key⟩
      next referenced =>
        have refs := inv.placed.refs nId info known
        exact ⟨s, rfl, claimed (inv.claim known (by omega)), rfl⟩

end CryptoYen.CAddrMan
