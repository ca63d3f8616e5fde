import CryptoYen.Net.AddrSteps

set_option autoImplicit false

namespace CryptoYen.CAddrMan

open PartialMap

structure Shuffled (s t : CAddrMan) : Prop where
  key : t.nKey = s.nKey
  tried : t.vvTried = s.vvTried
  new : t.vvNew = s.vvNew
  length : t.vRandom.length = s.vRandom.length
  keeps : ∀ nId, Keeps s t nId

theorem Shuffled.refl (s : CAddrMan) : Shuffled s s := ⟨rfl, rfl, rfl, rfl, Keeps.refl s⟩

theorem Listed.entryAt {s : CAddrMan} (listed : s.Listed) (i : Nat) (within : i < s.vRandom.length) :
    ∃ nId info, s.vRandom[i]? = some nId ∧ s.mapInfo.lookup nId = some info ∧
      info.nRandomPos = i := by
  have there : s.vRandom[i]? = some s.vRandom[i] := List.getElem?_eq_getElem within
  have place := (listed.random i s.vRandom[i]).mp (by rw [atPosition_nat, there])
  obtain ⟨info, known, here⟩ := Option.bind_eq_some_iff.mp place
  exact ⟨_, info, there, known, Option.some.inj here⟩

theorem Listed.positionOf {s : CAddrMan} (listed : s.Listed) (nId : Nat) (info : CAddrInfo)
    (known : s.mapInfo.lookup nId = some info) :
    ∃ i : Nat, info.nRandomPos = i ∧ s.vRandom[i]? = some nId := by
  have place : s.positions nId = some info.nRandomPos := by simp [positions, projected, known]
  exact atPosition_some _ _ _ ((listed.random _ nId).mpr place)

theorem Listed.addressOf {s : CAddrMan} (listed : s.Listed) (nId : Nat) (info : CAddrInfo)
    (known : s.mapInfo.lookup nId = some info) : s.mapAddr.lookup info.ip = some nId :=
  (listed.addr info.ip nId).mpr (by simp [addresses, projected, known])

theorem positions_update (s : CAddrMan) (nId : Nat) (new : CAddrInfo) :
    (s.update nId new).positions = Function.update s.positions nId (some new.nRandomPos) :=
  projected_insert _ s.mapInfo nId new

theorem Listed.exchange {s : CAddrMan} (listed : s.Listed) (p q nId1 nId2 : Nat)
    (info1 info2 : CAddrInfo) (apart : p ≠ q) (differs : nId2 ≠ nId1)
    (at1 : s.vRandom[p]? = some nId1) (at2 : s.vRandom[q]? = some nId2)
    (known1 : s.mapInfo.lookup nId1 = some info1) (known2 : s.mapInfo.lookup nId2 = some info2) :
    Listed { (s.update nId1 { info1 with nRandomPos := q }).update nId2
        { info2 with nRandomPos := p } with
      vRandom := (s.vRandom.set p nId2).set q nId1 } := by
  let mid := s.update nId1 { info1 with nRandomPos := (q : Int) }
  let final := mid.update nId2 { info2 with nRandomPos := (p : Int) }
  have mid_known : mid.mapInfo.lookup nId2 = some info2 := by
    simp only [mid, update, Assoc.lookup_insert, if_neg differs, known2]
  have first : p < s.vRandom.length := (List.getElem?_eq_some_iff.mp at1).1
  have second : q < s.vRandom.length := (List.getElem?_eq_some_iff.mp at2).1
  constructor
  · have places : final.positions =
        Function.update (Function.update s.positions nId1 (some (q : Int))) nId2 (some (p : Int)) := by
      rw [positions_update, positions_update]
    have vector : atPosition ((s.vRandom.set p nId2).set q nId1) =
        Function.update (Function.update (atPosition s.vRandom) p (some nId2)) q (some nId1) := by
      rw [atPosition_set _ _ _ (by simpa using second), atPosition_set _ _ _ first]
    have exchanged := listed.random.swap (p : Int) q nId1 nId2 (by omega)
      (by rw [atPosition_nat, at1]) (by rw [atPosition_nat, at2])
    rw [← vector, ← places] at exchanged
    exact exchanged
  · have mid_names : mid.addresses = s.addresses := addresses_edit known1 rfl rfl
    have names : final.addresses = mid.addresses := addresses_edit mid_known rfl rfl
    have inverse := listed.addr
    rw [← mid_names, ← names] at inverse
    exact inverse
  · have mid_below := below_edit (t := mid) listed.below known1 rfl rfl
    exact below_edit mid_below mid_known rfl rfl

variable [AddrHasher] {s : CAddrMan} {free : Set Nat} {owed : Int}

theorem Between.swapRandom (inv : s.Between free owed) (p q : Nat) (first : p < s.vRandom.length)
    (second : q < s.vRandom.length) :
    ∃ t, s.swapRandom p q = some t ∧ t.Between free owed ∧ Shuffled s t ∧
      ∀ nId info, s.mapInfo.lookup nId = some info → info.nRandomPos = p →
        t.mapInfo.lookup nId = some { info with nRandomPos := q } := by
  unfold CAddrMan.swapRandom
  split
  next same =>
    refine ⟨s, rfl, inv, .refl s, fun nId info known place => ?_⟩
    rw [← same, ← place]
    exact known
  next apart =>
    obtain ⟨nId1, info1, at1, known1, place1⟩ := inv.listed.entryAt p first
    obtain ⟨nId2, info2, at2, known2, place2⟩ := inv.listed.entryAt q second
    have differs : nId2 ≠ nId1 := by
      intro same
      rw [same, known1] at known2
      cases known2
      omega
    simp only [at1, at2, known1, known2, Option.bind_eq_bind, Option.bind_some]
    let mid := s.update nId1 { info1 with nRandomPos := (q : Int) }
    have mid_known : mid.mapInfo.lookup nId2 = some info2 := by
      simp only [mid, update, Assoc.lookup_insert, if_neg differs, known2]
    have mid_placed : mid.Placed free := inv.placed.edit known1 rfl rfl rfl rfl rfl rfl rfl
    have mid_counted : mid.Counted owed := inv.counted.same known1 rfl rfl rfl rfl
    have times1 := inv.timed nId1 info1 known1
    have times2 := inv.timed nId2 info2 known2
    have mid_timed : mid.Timed := inv.timed.edit rfl times1.1 times1.2.1 times1.2.2
    have listed := inv.listed.exchange p q nId1 nId2 info1 info2 apart differs at1 at2 known1 known2
    refine ⟨_, rfl, ⟨listed, mid_placed.edit mid_known rfl rfl rfl rfl rfl rfl rfl,
      mid_counted.same mid_known rfl rfl rfl rfl,
      mid_timed.edit rfl times2.1 times2.2.1 times2.2.2⟩, ⟨rfl, rfl, rfl, ?_, ?_⟩, ?_⟩
    · simp
    · intro nId info known
      simp only [update, Assoc.lookup_insert]
      by_cases is2 : nId = nId2
      next =>
        rw [is2, known2] at known
        cases known
        exact ⟨p, if_pos is2⟩
      next =>
        by_cases is1 : nId = nId1
        next =>
          rw [is1, known1] at known
          cases known
          exact ⟨q, by rw [if_neg is2, if_pos is1]⟩
        next => exact ⟨info.nRandomPos, by rw [if_neg is2, if_neg is1, known]⟩
    · intro nId info known place
      have is1 : nId = nId1 := by
        obtain ⟨i, here, listed⟩ := inv.listed.positionOf nId info known
        have same : i = p := by omega
        rw [same, at1] at listed
        exact (Option.some.inj listed).symm
      rw [is1, known1] at known
      cases known
      simp only [update, Assoc.lookup_insert]
      rw [if_neg (is1 ▸ differs.symm), if_pos is1]

theorem Placed.unused {nId : Nat} {info : CAddrInfo} (placed : s.Placed free)
    (known : s.mapInfo.lookup nId = some info) (unreferenced : info.nRefCount = 0)
    (slot : NewSlot) : s.vvNew slot ≠ some nId := by
  intro used
  have refs := placed.refs nId info known
  have positive := count_pos s.vvNew slot nId used
  omega

theorem Between.drop {nId last : Nat} {info : CAddrInfo} (inv : s.Between free owed)
    (known : s.mapInfo.lookup nId = some info) (untried : info.fInTried = false)
    (unreferenced : info.nRefCount = 0) (place : info.nRandomPos = last)
    (length : s.vRandom.length = last + 1) :
    Between (free \ {nId}) owed
      { s with
        vRandom := s.vRandom.dropLast
        mapAddr := s.mapAddr.erase info.ip
        mapInfo := s.mapInfo.erase nId
        nNew := s.nNew - 1 } := by
  constructor
  · constructor
    · have here : atPosition s.vRandom last = some nId :=
        (inv.listed.random last nId).mpr (by simp [positions, projected, known, place])
      have dropped := inv.listed.random.drop _ _ here
      rw [← atPosition_dropLast s.vRandom last length] at dropped
      simp only [positions, projected_erase]
      exact dropped
    · have dropped := inv.listed.addr.drop _ _ (inv.listed.addressOf nId info known)
      simp only [addresses, projected_erase, lookup_erase_eq]
      exact dropped
    · intro other found present
      exact inv.listed.below other found (Assoc.lookup_of_erase _ _ _ _ present).2
  · constructor
    · have nowhere : none = s.triedPlaces nId := by simp [triedPlaces, projected, known, untried]
      simp only [triedPlaces, projected_erase]
      have same : Function.update s.triedPlaces nId none = s.triedPlaces := by
        rw [nowhere, Function.update_eq_self]
      exact same ▸ inv.placed.tried
    · intro slot other used
      obtain ⟨found, present, status, spot⟩ := inv.placed.new slot other used
      have differs : other ≠ nId := fun same =>
        inv.placed.unused known unreferenced slot (same ▸ used)
      refine ⟨found, ?_, status, spot⟩
      rw [Assoc.lookup_erase, if_neg differs, present]
    · intro other found present
      exact inv.placed.refs other found (Assoc.lookup_of_erase _ _ _ _ present).2
    · intro other found present
      exact inv.placed.limit other found (Assoc.lookup_of_erase _ _ _ _ present).2
    · intro other found present status taken
      obtain ⟨differs, there⟩ := Assoc.lookup_of_erase _ _ _ _ present
      exact inv.placed.referenced other found there status fun inside => taken ⟨inside, differs⟩
  · have tried_sum := Assoc.sumBy_erase triedMark s.mapInfo nId info known
    have new_sum := Assoc.sumBy_erase newMark s.mapInfo nId info known
    have tried := inv.counted.tried
    have new := inv.counted.new
    have no_mark : triedMark info = 0 := by simp [triedMark, untried]
    have mark : newMark info = 1 := by simp [newMark, untried]
    constructor <;> simp only <;> omega
  · intro other found present
    exact inv.timed other found (Assoc.lookup_of_erase _ _ _ _ present).2

theorem Between.delete {nId : Nat} {info : CAddrInfo} (inv : s.Between free owed)
    (known : s.mapInfo.lookup nId = some info) (untried : info.fInTried = false)
    (unreferenced : info.nRefCount = 0) :
    ∃ t, s.delete nId = some t ∧ t.Between (free \ {nId}) owed ∧ t.nKey = s.nKey ∧
      t.vvTried = s.vvTried ∧ t.vvNew = s.vvNew ∧ ∀ other, other ≠ nId → Keeps s t other := by
  obtain ⟨i, place, here⟩ := inv.listed.positionOf nId info known
  have within : i < s.vRandom.length := (List.getElem?_eq_some_iff.mp here).1
  obtain ⟨mid, swapped, mid_inv, shuffled, moved⟩ :=
    inv.swapRandom i (s.vRandom.length - 1) within (by omega)
  have mid_length : mid.vRandom.length = s.vRandom.length - 1 + 1 := by
    rw [shuffled.length]
    omega
  have mid_known := moved nId info known place
  have dropped := mid_inv.drop mid_known untried unreferenced rfl mid_length
  have allowed : ¬ (info.fInTried = true ∨ info.nRefCount ≠ 0 ∨ info.nRandomPos < 0) := by
    simp [untried, unreferenced, place]
  have at_place : info.nRandomPos.toNat = i := by omega
  refine ⟨_, ?_, dropped, shuffled.key, shuffled.tried, shuffled.new, fun other differs => ?_⟩
  · simp only [CAddrMan.delete, known, Option.bind_eq_bind, Option.bind_some, if_neg allowed,
      at_place, swapped]
  · intro found there
    obtain ⟨spot, kept⟩ := shuffled.keeps other found there
    exact ⟨spot, by rw [Assoc.lookup_erase, if_neg differs, kept]⟩

end CryptoYen.CAddrMan
