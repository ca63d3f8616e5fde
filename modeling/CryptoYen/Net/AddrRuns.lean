import CryptoYen.Library.Machine
import CryptoYen.Net.AddrCheck
import CryptoYen.Net.AddrMoves

set_option autoImplicit false

namespace CryptoYen

namespace CAddrMan

open PartialMap

section Checking

variable {s : CAddrMan}

theorem Listed.vRandom_perm (listed : s.Listed) : s.vRandom.Perm s.mapInfo.keys := by
  have distinct : s.vRandom.Nodup := by
    refine List.nodup_iff_injective_get.mpr fun i j same => ?_
    have at_i : atPosition s.vRandom i = some (s.vRandom.get i) := by simp
    have at_j : atPosition s.vRandom j = some (s.vRandom.get i) := by
      rw [same]
      simp
    have positions := listed.random.injective i j _ at_i at_j
    exact Fin.ext (by omega)
  have keys_distinct : s.mapInfo.keys.Nodup := s.mapInfo.nodupKeys
  refine (List.perm_ext_iff_of_nodup distinct keys_distinct).mpr fun nId => ?_
  rw [← AList.mem_keys, ← AList.lookup_isSome, Option.isSome_iff_exists]
  constructor
  · intro member
    obtain ⟨i, within, here⟩ := List.mem_iff_getElem.mp member
    obtain ⟨other, info, there, known, _⟩ := listed.entryAt i within
    rw [List.getElem?_eq_getElem within, here] at there
    cases there
    exact ⟨info, known⟩
  · intro ⟨info, known⟩
    obtain ⟨i, _, there⟩ := listed.positionOf nId info known
    exact List.mem_of_getElem? there

theorem entries_length (map : AList fun _ : Nat => CAddrInfo) :
    (map.keys.length : Int) = Assoc.sumBy triedMark map + Assoc.sumBy newMark map := by
  have marks : (fun info => triedMark info + newMark info) = fun _ => (1 : Int) := by
    funext info
    cases here : info.fInTried <;> simp [triedMark, newMark, here]
  rw [← Assoc.sumBy_add, marks]
  simp [Assoc.sumBy, AList.keys, List.keys]

variable [AddrHasher]

theorem Between.checkInfo (inv : s.Consistent) (nId : Nat) (info : CAddrInfo)
    (known : s.mapInfo.lookup nId = some info) : s.checkInfo (nId, info) = .ok () := by
  obtain ⟨i, place, there⟩ := inv.listed.positionOf nId info known
  obtain ⟨tries, successes, reached⟩ := inv.timed nId info known
  have name := inv.listed.addressOf nId info known
  have limit := inv.placed.limit nId info known
  cases status : info.fInTried with
  | true =>
      have slot : s.triedPlaces nId = some (info.triedSlot s.nKey) := by
        simp [triedPlaces, projected, known, status]
      obtain ⟨found, here, _, _, unreferenced⟩ :=
        inv.placed.triedAt _ nId ((inv.placed.tried _ nId).mpr slot)
      rw [known] at here
      cases here
      simp [CAddrMan.checkInfo, status, reached status, unreferenced, name, place, there, tries,
        successes]
  | false =>
      have positive := inv.placed.referenced nId info known status (Set.notMem_empty nId)
      have counted : info.nRefCount ≠ 0 := by omega
      simp [CAddrMan.checkInfo, status, positive.le, limit, counted, name, place, there, tries,
        successes]

theorem Between.triedOnce (inv : s.Consistent) (nId : Nat) :
    (if nId ∈ s.setTried then 1 else 0) = count s.vvTried nId := by
  have marked : nId ∈ s.setTried ↔ (s.triedPlaces nId).isSome = true := by
    rw [mem_setTried, triedPlaces, projected]
    cases known : s.mapInfo.lookup nId with
    | none => simp
    | some info => cases here : info.fInTried <;> simp [here]
  rw [inv.placed.tried.count_one]
  simp only [marked]

theorem Between.newRefs (inv : s.Consistent) (nId : Nat) :
    (s.mapNew.lookup nId).getD 0 = count s.vvNew nId := by
  cases here : s.mapNew.lookup nId with
  | some refs =>
      obtain ⟨info, known, _, rfl⟩ := (s.lookup_mapNew nId refs).mp here
      exact inv.placed.refs nId info known
  | none =>
      refine congrArg Nat.cast (count_eq_zero _ _ fun slot used => ?_).symm
      obtain ⟨info, known, untried, _⟩ := inv.placed.new slot nId used
      have there := (s.lookup_mapNew nId info.nRefCount).mpr ⟨info, known, untried, rfl⟩
      rw [here] at there
      cases there

theorem Between.checked (inv : s.Consistent) : s.Checked := by
  have tried_size := inv.counted.tried
  have new_size := inv.counted.new
  constructor
  · rw [inv.listed.vRandom_perm.length_eq, entries_length]
    omega
  · exact inv.checkInfo
  · rw [setTried_sum, tried_size]
  · rw [mapNew_sum]
    omega
  · intro slot nId used
    obtain ⟨info, known, _, place, _⟩ := inv.placed.triedAt slot nId used
    simp [known, place]
  · exact inv.triedOnce
  · intro slot nId used
    obtain ⟨info, known, _, place⟩ := inv.placed.new slot nId used
    simp [known, place]
  · exact inv.newRefs

end Checking

section Calls

variable [AddrHasher] {s : CAddrMan}

omit [AddrHasher] in
theorem find_some (addr : CNetAddr) (nId : Nat) (info : CAddrInfo)
    (found : s.find addr = some (nId, info)) : s.mapInfo.lookup nId = some info := by
  obtain ⟨other, _, here⟩ := Option.bind_eq_some_iff.mp found
  obtain ⟨there, known, same⟩ := Option.map_eq_some_iff.mp here
  cases same
  exact known

omit [AddrHasher] in
theorem find_none (listed : s.Listed) (addr : CNetAddr) (missing : s.find addr = none) :
    s.mapAddr.lookup addr = none := by
  cases named : s.mapAddr.lookup addr with
  | none => rfl
  | some nId =>
      obtain ⟨info, known, _⟩ := Option.bind_eq_some_iff.mp ((listed.addr addr nId).mp named)
      simp [find, named, known] at missing

theorem Between.attempt (inv : s.Consistent) (addr : CService) (nTime : Int64)
    (positive : 0 < nTime) :
    (s.attempt addr nTime).Consistent ∧ (s.attempt addr nTime).nKey = s.nKey := by
  unfold CAddrMan.attempt
  split
  next => exact ⟨inv, rfl⟩
  next nId info found =>
    have known := find_some addr.ip nId info found
    obtain ⟨_, successes, reached⟩ := inv.timed nId info known
    split
    next => exact ⟨inv, rfl⟩
    next =>
      have later := Int64.le_of_lt positive
      exact ⟨inv.touch known rfl rfl rfl rfl later successes reached, rfl⟩

theorem Between.connected (inv : s.Consistent) (addr : CService) (nTime : Int64) :
    (s.connected addr nTime).Consistent ∧ (s.connected addr nTime).nKey = s.nKey := by
  unfold CAddrMan.connected
  split
  next => exact ⟨inv, rfl⟩
  next nId info found =>
    have known := find_some addr.ip nId info found
    obtain ⟨tries, successes, reached⟩ := inv.timed nId info known
    split
    next => exact ⟨inv, rfl⟩
    next =>
      split
      next => exact ⟨inv.touch known rfl rfl rfl rfl tries successes reached, rfl⟩
      next => exact ⟨inv, rfl⟩

theorem Between.good (inv : s.Consistent) (addr : CService) (nTime : Int64) (nRnd : Nat)
    (positive : 0 < nTime) :
    ∃ t, s.good addr nTime nRnd = some t ∧ t.Consistent ∧ t.nKey = s.nKey := by
  unfold CAddrMan.good
  split
  next => exact ⟨s, rfl, inv, rfl⟩
  next nId info found =>
    have known := find_some addr.ip nId info found
    have later : 0 ≤ nTime := Int64.le_of_lt positive
    have nonzero : nTime ≠ 0 := Ne.symm (Int64.ne_of_lt positive)
    split
    next => exact ⟨s, rfl, inv, rfl⟩
    next =>
      let new : CAddrInfo := { info with nLastSuccess := nTime, nLastTry := nTime, nAttempts := 0 }
      have touched : (s.update nId new).Consistent :=
        inv.touch known rfl rfl rfl rfl later later fun _ => nonzero
      have there : (s.update nId new).mapInfo.lookup nId = some new := by simp [update]
      simp only
      split
      next => exact ⟨_, rfl, touched, rfl⟩
      next untried =>
        split
        next => exact touched.makeTried there (Bool.eq_false_iff.mpr untried) nonzero
        next => exact ⟨_, rfl, touched, rfl⟩

theorem Between.countNew {free : Set Nat} {owed : Int} (inv : s.Between free (owed + 1)) :
    Between free owed { s with nNew := s.nNew + 1 } where
  listed := ⟨inv.listed.random, inv.listed.addr, inv.listed.below⟩
  placed := ⟨inv.placed.tried, inv.placed.new, inv.placed.refs, inv.placed.limit,
    inv.placed.referenced⟩
  counted := by
    refine ⟨inv.counted.tried, Eq.trans ?_ inv.counted.new⟩
    simp only
    omega
  timed := inv.timed

theorem Between.addKnown (inv : s.Consistent) (nId : Nat) (info pinfo : CAddrInfo)
    (known : s.mapInfo.lookup nId = some info) (addr : CAddress) (source : CNetAddr)
    (nTimePenalty nNow nLater : Int64) (nRnd : Nat)
    (refreshed : pinfo = refreshed info addr nTimePenalty nNow)
    (moves : keepsPlaces pinfo addr nRnd ≠ true) :
    ∃ t, (s.update nId pinfo).enter nId source nLater = some t ∧ t.Consistent ∧
      t.nKey = s.nKey := by
  obtain ⟨tries, successes, reached⟩ := inv.timed nId info known
  have touched : (s.update nId pinfo).Consistent := by
    rw [refreshed]
    exact inv.touch known rfl rfl rfl rfl tries successes reached
  have there : (s.update nId pinfo).mapInfo.lookup nId = some pinfo := by simp [update]
  have limit := touched.placed.limit nId pinfo there
  rw [keepsPlaces, ne_eq, decide_eq_true_eq] at moves
  simp only [not_or] at moves
  obtain ⟨_, untried, places, _⟩ := moves
  exact (touched.mono (Set.empty_subset {nId})).enter there (Bool.eq_false_iff.mpr untried)
    (by omega) source nLater

theorem Between.addUnknown (inv : s.Consistent) (addr : CAddress) (source : CNetAddr)
    (nTime : UInt32) (nLater : Int64) (missing : s.find addr.ip = none) :
    ∃ t, CAddrMan.enter
      { (s.create addr source).2.update s.nIdCount
          { ((s.create addr source).2.mapInfo.lookup s.nIdCount).getD .null with nTime := nTime } with
        nNew := (s.create addr source).2.nNew + 1 } s.nIdCount source nLater = some t ∧
      t.Consistent ∧ t.nKey = s.nKey := by
  have created := inv.create addr source (find_none inv.listed addr.ip missing)
  let info : CAddrInfo := { CAddrInfo.init addr source with nRandomPos := s.vRandom.length }
  have known : (s.create addr source).2.mapInfo.lookup s.nIdCount = some info := by
    simp [CAddrMan.create, info]
  have never : (0 : Int64) ≤ 0 := by decide
  have room : info.nRefCount < ADDRMAN_NEW_BUCKETS_PER_ADDRESS := by
    have zero : info.nRefCount = 0 := rfl
    rw [zero]
    decide
  have touched : ((s.create addr source).2.update s.nIdCount { info with nTime := nTime }).Between
      {s.nIdCount} 1 :=
    created.touch known rfl rfl rfl rfl never never fun tried => by cases tried
  have counted : Between {s.nIdCount} 0
      { (s.create addr source).2.update s.nIdCount { info with nTime := nTime } with
        nNew := (s.create addr source).2.nNew + 1 } := Between.countNew touched
  have there : ((s.create addr source).2.update s.nIdCount { info with nTime := nTime }).mapInfo.lookup
      s.nIdCount = some { info with nTime := nTime } := by simp [update]
  rw [known]
  exact counted.enter there rfl room source nLater

theorem Between.add (inv : s.Consistent) (addr : CAddress) (source : CNetAddr)
    (nTimePenalty nNow nLater : Int64) (nRnd : Nat) :
    ∃ t fNew, s.add addr source nTimePenalty nNow nLater nRnd = some (t, fNew) ∧
      t.Consistent ∧ t.nKey = s.nKey := by
  unfold CAddrMan.add
  split
  next => exact ⟨s, false, rfl, inv, rfl⟩
  next =>
    split
    next nId info found =>
      have known := find_some addr.ip nId info found
      obtain ⟨tries, successes, reached⟩ := inv.timed nId info known
      simp only
      split
      next => exact ⟨_, _, rfl, inv.touch known rfl rfl rfl rfl tries successes reached, rfl⟩
      next moves =>
        obtain ⟨t, entered, t_inv⟩ := inv.addKnown nId info _ known addr source nTimePenalty nNow
          nLater nRnd rfl moves
        exact ⟨t, false, Option.map_eq_some_iff.mpr ⟨t, entered, rfl⟩, t_inv⟩
    next missing =>
      obtain ⟨t, entered, t_inv⟩ := inv.addUnknown addr source
        (penalized (((s.create addr source).2.mapInfo.lookup s.nIdCount).getD .null).nTime
          nTimePenalty) nLater missing
      exact ⟨t, true, Option.map_eq_some_iff.mpr ⟨t, entered, rfl⟩, t_inv⟩

theorem Between.gather (nNodes : Nat) (nRnd : Nat → Nat) (nNow : Nat → Int64) (rest : List Nat)
    (inv : s.Consistent) (within : ∀ n ∈ rest, n < s.vRandom.length) (vAddr : List CAddress) :
    ∃ t found, CAddrMan.gather nNodes nRnd nNow rest s vAddr = some (t, found) ∧
      t.Consistent ∧ t.nKey = s.nKey := by
  induction rest generalizing s vAddr with
  | nil => exact ⟨s, vAddr, rfl, inv, rfl⟩
  | cons n rest ih =>
      obtain ⟨here, later⟩ := List.forall_mem_cons.mp within
      unfold CAddrMan.gather
      split
      next => exact ⟨s, vAddr, rfl, inv, rfl⟩
      next =>
        have drawn := Nat.mod_lt (nRnd n) (show 0 < s.vRandom.length - n by omega)
        obtain ⟨mid, swapped, mid_inv, shuffled, _⟩ :=
          inv.swapRandom n (nRnd n % (s.vRandom.length - n) + n) here (by omega)
        rw [← shuffled.length] at here later
        obtain ⟨nId, ai, there, known, _⟩ := mid_inv.listed.entryAt n here
        simp only [swapped, there, known, Option.bind_eq_bind, Option.bind_some]
        rw [← shuffled.key]
        exact ih mid_inv later _

theorem Between.getAddr (inv : s.Consistent) (nRnd : Nat → Nat) (nNow : Nat → Int64) :
    ∃ t vAddr, s.getAddr nRnd nNow = some (t, vAddr) ∧ t.Consistent ∧ t.nKey = s.nKey :=
  inv.gather _ nRnd nNow (List.range s.vRandom.length)
    (fun _ member => List.mem_range.mp member) []

end Calls

end CAddrMan

/-- The calls, with the times they are given or read and the numbers that are drawn. -/
inductive AddrCall
  | add (addr : CAddress) (source : CNetAddr) (nTimePenalty nNow nLater : Int64) (nRnd : Nat)
  | good (addr : CService) (nTime : Int64) (nRnd : Nat)
  | attempt (addr : CService) (nTime : Int64)
  | connected (addr : CService) (nTime : Int64)
  | getAddr (nRnd : Nat → Nat) (nNow : Nat → Int64)

def AddrCall.Positive : AddrCall → Prop
  | .good _ nTime _ => 0 < nTime
  | .attempt _ nTime => 0 < nTime
  | .connected _ nTime => 0 < nTime
  | _ => True

namespace CAddrMan

open PartialMap

variable [AddrHasher]

def step (s : CAddrMan) : AddrCall → Option CAddrMan
  | .add addr source nTimePenalty nNow nLater nRnd =>
      (s.add addr source nTimePenalty nNow nLater nRnd).map Prod.fst
  | .good addr nTime nRnd => s.good addr nTime nRnd
  | .attempt addr nTime => some (s.attempt addr nTime)
  | .connected addr nTime => some (s.connected addr nTime)
  | .getAddr nRnd nNow => (s.getAddr nRnd nNow).map Prod.fst

theorem initial_consistent (nKey : Uint256) : (initial nKey).Consistent := by
  have unlisted : ∀ i, atPosition ([] : List Nat) i = none := by simp [atPosition]
  constructor
  · constructor
    · exact fun i nId => by simp [initial, unlisted, positions, projected]
    · exact fun addr nId => by simp [initial, addresses, projected]
    · exact fun nId info known => by cases known
  · constructor
    · exact fun slot nId => by simp [initial, triedPlaces, projected]
    · exact fun slot nId used => by cases used
    · exact fun nId info known => by cases known
    · exact fun nId info known => by cases known
    · exact fun nId info known => by cases known
  · exact ⟨rfl, rfl⟩
  · exact fun nId info known => by cases known

theorem Between.step {s : CAddrMan} (inv : s.Consistent) (call : AddrCall)
    (positive : call.Positive) :
    ∃ t, s.step call = some t ∧ t.Consistent ∧ t.nKey = s.nKey := by
  cases call with
  | add addr source nTimePenalty nNow nLater nRnd =>
      obtain ⟨t, fNew, added, t_inv⟩ := inv.add addr source nTimePenalty nNow nLater nRnd
      exact ⟨t, by simp [CAddrMan.step, added], t_inv⟩
  | good addr nTime nRnd => exact inv.good addr nTime nRnd positive
  | attempt addr nTime => exact ⟨_, rfl, inv.attempt addr nTime positive⟩
  | connected addr nTime => exact ⟨_, rfl, inv.connected addr nTime⟩
  | getAddr nRnd nNow =>
      obtain ⟨t, vAddr, gathered, t_inv⟩ := inv.getAddr nRnd nNow
      exact ⟨t, by simp [CAddrMan.step, gathered], t_inv⟩

theorem run_between (nKey : Uint256) (calls : List AddrCall)
    (positive : ∀ call ∈ calls, call.Positive) :
    ∃ s, Machine.run step (initial nKey) calls = some s ∧ s.Consistent ∧ s.nKey = nKey := by
  refine Machine.run_total step AddrCall.Positive (fun s => s.Consistent ∧ s.nKey = nKey) ?_
    (initial nKey) calls positive ⟨initial_consistent nKey, rfl⟩
  intro s call held valid
  obtain ⟨t, taken, inv, same⟩ := held.1.step call valid
  exact ⟨t, taken, inv, same.trans held.2⟩

/-- No assertion fails in any run, and all that Check_ tests holds at its end, whatever the hashes
assign; only the key may be null, as it was drawn. -/
theorem run_check (nKey : Uint256) (calls : List AddrCall)
    (positive : ∀ call ∈ calls, call.Positive) :
    ∃ s, Machine.run step (initial nKey) calls = some s ∧ s.Consistent ∧
      s.vRandom.Perm s.mapInfo.keys ∧
      s.check = if nKey = 0 then .error (-16) else .ok () := by
  obtain ⟨s, ran, inv, key⟩ := run_between nKey calls positive
  have checked := inv.checked.check_eq
  rw [key] at checked
  exact ⟨s, ran, inv, inv.listed.vRandom_perm, checked⟩

@[reducible] def crowdedHasher : AddrHasher where
  getTriedBucket _ _ := 0
  getNewBucket _ _ _ := 0
  getBucketPosition _ _ _ _ := 0

def crowdedCalls : List AddrCall :=
  [.add ⟨⟨0x08080808ffff00000000000000000000, 8333⟩, 1, 1000⟩ 7 0 1000 1000 0,
    .good ⟨0x08080808ffff00000000000000000000, 8333⟩ 1001 0,
    .add ⟨⟨0x09080808ffff00000000000000000000, 8333⟩, 1, 1000⟩ 7 0 1002 1002 0,
    .good ⟨0x09080808ffff00000000000000000000, 8333⟩ 1003 5,
    .getAddr (fun n => n + 1) (fun _ => 1004)]

omit [AddrHasher] in
theorem crowdedCalls_positive : ∀ call ∈ crowdedCalls, call.Positive := by
  simp [crowdedCalls, AddrCall.Positive]

omit [AddrHasher] in
theorem run_check_crowded :
    ∃ s, Machine.run (@step crowdedHasher) (initial 1) crowdedCalls = some s ∧
      @Consistent crowdedHasher s ∧ s.vRandom.Perm s.mapInfo.keys ∧
      @check crowdedHasher s = .ok () :=
  @run_check crowdedHasher 1 crowdedCalls crowdedCalls_positive

end CAddrMan

end CryptoYen
