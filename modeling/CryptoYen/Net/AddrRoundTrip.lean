import CryptoYen.Net.AddrDisk

set_option autoImplicit false

namespace CryptoYen

namespace CAddrMan

open PartialMap

section Writing

theorem unkIds_mem (nIds : Nat) (entries : List (Nat × CAddrInfo)) (nId : Nat) (info : CAddrInfo)
    (member : (nId, info) ∈ entries) (referenced : info.nRefCount ≠ 0) :
    ∃ index, (nId, nIds + index) ∈ unkIds nIds entries ∧
      (entries.filter fun entry => entry.2.nRefCount ≠ 0)[index]? = some (nId, info) := by
  induction entries generalizing nIds with
  | nil => cases member
  | cons entry rest ih =>
      cases List.mem_cons.mp member with
      | inl same =>
          subst same
          exact ⟨0, by simp [unkIds], by simp [referenced]⟩
      | inr later =>
          by_cases counted : entry.2.nRefCount ≠ 0
          next =>
            obtain ⟨index, listed, there⟩ := ih (nIds + 1) later
            have shifted : nIds + (index + 1) = nIds + 1 + index := by omega
            refine ⟨index + 1, List.mem_cons_of_mem _ ?_, ?_⟩
            · rw [if_pos counted, shifted]
              exact listed
            · rw [List.filter_cons_of_pos (by simpa using counted), List.getElem?_cons_succ, there]
          next =>
            obtain ⟨index, listed, there⟩ := ih nIds later
            refine ⟨index, List.mem_cons_of_mem _ ?_, ?_⟩
            · rw [if_neg counted]
              exact listed
            · rw [List.filter_cons_of_neg (by simpa using counted), there]

theorem unkIds_keys (nIds : Nat) (entries : List (Nat × CAddrInfo)) :
    (unkIds nIds entries).map Prod.fst = entries.map Prod.fst := by
  induction entries generalizing nIds with
  | nil => rfl
  | cons entry rest ih => simp [unkIds, ih]

theorem writeInfos_all (limit : Int) (nIds : Nat) (infos : List CAddrInfo)
    (counted : limit = nIds + infos.length) : writeInfos limit nIds infos = some infos := by
  induction infos generalizing nIds with
  | nil => rfl
  | cons info rest ih =>
      rw [List.length_cons] at counted
      rw [writeInfos, if_neg (by omega), ih (nIds + 1) (by omega)]
      rfl

end Writing

section Sizes

variable [AddrHasher] {s : CAddrMan}

theorem Checked.untried_iff (checked : s.Checked) (nId : Nat) (info : CAddrInfo)
    (known : s.mapInfo.lookup nId = some info) : info.nRefCount ≠ 0 ↔ info.fInTried = false := by
  have tests := checked.info nId info known
  cases status : info.fInTried with
  | true =>
      simp [checkInfo, status] at tests
      simp [tests.2.1]
  | false =>
      simp [checkInfo, status] at tests
      simp [tests.2.1]

theorem Checked.refs_le (checked : s.Checked) (nId : Nat) (info : CAddrInfo)
    (known : s.mapInfo.lookup nId = some info) (untried : info.fInTried = false) :
    info.nRefCount = count s.vvNew nId ∧ info.nRefCount ≤ ADDRMAN_NEW_BUCKETS_PER_ADDRESS := by
  have tests := checked.info nId info known
  have there := (s.lookup_mapNew nId info.nRefCount).mpr ⟨info, known, untried, rfl⟩
  have refs := checked.newRefs nId
  rw [there] at refs
  simp [checkInfo, untried] at tests
  exact ⟨refs, tests.1.2⟩

theorem Checked.newAt (checked : s.Checked) (slot : NewSlot) (nId : Nat)
    (used : s.vvNew slot = some nId) :
    ∃ info, s.mapInfo.lookup nId = some info ∧ info.fInTried = false ∧ info.nRefCount ≠ 0 ∧
      info.newPosition s.nKey slot.1 = slot.2 := by
  have refs := checked.newRefs nId
  have positive := count_pos s.vvNew slot nId used
  cases here : s.mapNew.lookup nId with
  | none =>
      rw [here] at refs
      simp only [Option.getD_none] at refs
      omega
  | some counted =>
      obtain ⟨info, known, untried, _⟩ := (s.lookup_mapNew nId counted).mp here
      have place := checked.new slot nId used
      rw [known] at place
      exact ⟨info, known, untried, (checked.untried_iff nId info known).mpr untried, place⟩

theorem Checked.triedAt (checked : s.Checked) (slot : TriedSlot) (nId : Nat)
    (used : s.vvTried slot = some nId) :
    ∃ info, s.mapInfo.lookup nId = some info ∧ info.fInTried = true ∧
      info.triedSlot s.nKey = slot := by
  have once := checked.triedOnce nId
  have positive := count_pos s.vvTried slot nId used
  have listed : nId ∈ s.setTried := by
    by_contra absent
    rw [if_neg absent] at once
    omega
  obtain ⟨info, known, tried⟩ := (s.mem_setTried nId).mp listed
  have place := checked.tried slot nId used
  rw [known] at place
  exact ⟨info, known, tried, place⟩

def newEntries (s : CAddrMan) : List (Nat × CAddrInfo) :=
  s.infos.filter fun entry => entry.2.nRefCount ≠ 0

def triedEntries (s : CAddrMan) : List (Nat × CAddrInfo) :=
  s.infos.filter fun entry => entry.2.fInTried

theorem Checked.newEntries_length (checked : s.Checked) :
    (s.newEntries.length : Int) = s.nNew := by
  have same : s.newEntries = s.infos.filter fun entry => !entry.2.fInTried := by
    refine List.filter_congr fun (nId, info) member => ?_
    have counted := checked.untried_iff nId info ((s.mem_infos nId info).mp member)
    cases status : info.fInTried <;> simp [status] at counted <;> simp [counted]
  rw [← checked.newSize, mapNew_length, same]

theorem Checked.triedEntries_length (checked : s.Checked) :
    (s.triedEntries.length : Int) = s.nTried := by
  rw [← checked.triedSize, setTried_length, triedEntries]

theorem Checked.newEntries_small (checked : s.Checked) : s.newEntries.length ≤ 65536 := by
  have distinct : (s.newEntries.map Prod.fst).Nodup :=
    (Codec.sortedEntries_distinct id s.mapInfo).sublist (List.filter_sublist.map Prod.fst)
  have bound := length_le_slots s.vvNew _ distinct fun nId member => by
    obtain ⟨⟨other, info⟩, listed, rfl⟩ := List.mem_map.mp member
    obtain ⟨inside, referenced⟩ := List.mem_filter.mp listed
    have known := (s.mem_infos other info).mp inside
    have nonzero : info.nRefCount ≠ 0 := by simpa using referenced
    have untried := (checked.untried_iff other info known).mp nonzero
    have refs := (checked.refs_le other info known untried).1
    have positive : 0 < count s.vvNew other := by omega
    exact exists_of_count_pos _ _ positive
  rw [List.length_map, Fintype.card_prod, Fintype.card_fin, Fintype.card_fin] at bound
  exact bound

theorem Checked.triedEntries_small (checked : s.Checked) : s.triedEntries.length ≤ 16384 := by
  have distinct : (s.triedEntries.map Prod.fst).Nodup :=
    (Codec.sortedEntries_distinct id s.mapInfo).sublist (List.filter_sublist.map Prod.fst)
  have bound := length_le_slots s.vvTried _ distinct fun nId member => by
    obtain ⟨⟨other, info⟩, listed, rfl⟩ := List.mem_map.mp member
    obtain ⟨inside, tried⟩ := List.mem_filter.mp listed
    have known := (s.mem_infos other info).mp inside
    have once := checked.triedOnce other
    rw [if_pos ((s.mem_setTried other).mpr ⟨info, known, tried⟩)] at once
    have positive : 0 < count s.vvTried other := by omega
    exact exists_of_count_pos _ _ positive
  rw [List.length_map, Fintype.card_prod, Fintype.card_fin, Fintype.card_fin] at bound
  exact bound

end Sizes

section File

variable [AddrHasher] {s : CAddrMan}

def mapUnkIds (s : CAddrMan) : AList fun _ : Nat => Nat := Codec.fromEntries (unkIds 0 s.infos)

def newIndex (s : CAddrMan) (nId : Nat) : Nat := (s.mapUnkIds.lookup nId).getD 0

omit [AddrHasher] in
theorem newIndex_entry (nId : Nat) (info : CAddrInfo) (known : s.mapInfo.lookup nId = some info)
    (referenced : info.nRefCount ≠ 0) : s.newEntries[s.newIndex nId]? = some (nId, info) := by
  obtain ⟨index, listed, there⟩ :=
    unkIds_mem 0 s.infos nId info ((s.mem_infos nId info).mpr known) referenced
  have distinct : ((unkIds 0 s.infos).map Prod.fst).Nodup := by
    rw [unkIds_keys]
    exact Codec.sortedEntries_distinct id s.mapInfo
  rw [Nat.zero_add] at listed
  have found := (Codec.lookup_fromEntries _ distinct nId index).mpr listed
  rw [newIndex, mapUnkIds, found]
  exact there

def peersFile (s : CAddrMan) : PeersFile where
  nVersion := 1
  nKeySize := 32
  nKey := s.nKey
  nNew := s.nNew
  nTried := s.nTried
  nUBuckets := BitVec.ofNat 32 ADDRMAN_NEW_BUCKET_COUNT ^^^ 0x40000000
  infosNew := s.newEntries.map Prod.snd
  infosTried := s.triedEntries.map Prod.snd
  buckets := (List.finRange ADDRMAN_NEW_BUCKET_COUNT).map (s.writeBucket s.mapUnkIds)

theorem Checked.serialize (checked : s.Checked) : s.serialize = some s.peersFile := by
  have new := writeInfos_all s.nNew 0 s.infosNew (by
    have length := checked.newEntries_length
    rw [infosNew, List.length_map]
    simpa [newEntries] using length.symm)
  have tried := writeInfos_all s.nTried 0 s.infosTried (by
    have length := checked.triedEntries_length
    rw [infosTried, List.length_map]
    simpa [triedEntries] using length.symm)
  rw [CAddrMan.serialize, new, tried]
  rfl

omit [AddrHasher] in
theorem bucketCount_peersFile : s.peersFile.bucketCount = ADDRMAN_NEW_BUCKET_COUNT := by
  have unmasked :
      ((BitVec.ofNat 32 ADDRMAN_NEW_BUCKET_COUNT ^^^ 0x40000000) ^^^ 0x40000000).toInt =
        ADDRMAN_NEW_BUCKET_COUNT := by decide
  exact unmasked

omit [AddrHasher] in
theorem buckets_peersFile : s.peersFile.buckets =
    (List.finRange ADDRMAN_NEW_BUCKET_COUNT).map (s.writeBucket s.mapUnkIds) := by
  simp only [peersFile]

theorem Checked.writeBucket_typed (checked : s.Checked) (bucket : Fin ADDRMAN_NEW_BUCKET_COUNT) :
    Format.bucket.Typed (s.writeBucket s.mapUnkIds bucket) := by
  have small := checked.newEntries_small
  refine ⟨?_, ?_, fun index member => ?_⟩
  · have short := List.length_filterMap_le (fun i => (s.vvNew (bucket, i)).map fun nId =>
      ((s.mapUnkIds.lookup nId).getD 0 : Int)) (List.finRange ADDRMAN_BUCKET_SIZE)
    have size : ADDRMAN_BUCKET_SIZE = 64 := rfl
    rw [List.length_finRange] at short
    simp only [Format.int32, Format.Int32, writeBucket]
    omega
  · simp [writeBucket]
  · obtain ⟨i, _, used⟩ := List.mem_filterMap.mp member
    obtain ⟨nId, here, same⟩ := Option.map_eq_some_iff.mp used
    obtain ⟨info, known, _, referenced, _⟩ := checked.newAt (bucket, i) nId here
    have within := (List.getElem?_eq_some_iff.mp (newIndex_entry nId info known referenced)).1
    simp only [newIndex] at within
    simp only [Format.int32, Format.Int32]
    omega

theorem Checked.peersFile_typed (checked : s.Checked) : Format.peersFile.Typed s.peersFile := by
  have new_small := checked.newEntries_small
  have new_length := checked.newEntries_length
  have tried_small := checked.triedEntries_small
  have tried_length := checked.triedEntries_length
  apply Format.peersFile_typed
  · simp only [Format.Int32, peersFile]
    omega
  · simp only [Format.Int32, peersFile]
    omega
  · simp only [peersFile, List.length_map]
    omega
  · simp only [peersFile, List.length_map]
    omega
  · rw [bucketCount_peersFile, buckets_peersFile, List.length_map, List.length_finRange]
    rfl
  · intro bucket listed
    rw [buckets_peersFile] at listed
    obtain ⟨b, _, rfl⟩ := List.mem_map.mp listed
    exact checked.writeBucket_typed b

omit [AddrHasher] in
def peersRead (s : CAddrMan) : PeersFile :=
  { s.peersFile with
    infosNew := s.newEntries.map fun entry => entry.2.stored
    infosTried := s.triedEntries.map fun entry => entry.2.stored }

theorem Checked.read (checked : s.Checked) (rest : List UInt8) :
    Format.peersFile.read (Format.peersFile.write s.peersFile ++ rest) =
      .ok (s.peersRead, rest) := by
  have fits := Format.peersFile_fits s.peersFile rfl
  have back : Format.peersFile.back s.peersFile = s.peersRead := by
    rw [Format.peersFile_back]
    simp only [peersRead, peersFile, List.map_map]
    rfl
  rw [Format.peersFile.read_fits _ checked.peersFile_typed fits rest, back]

end File

end CAddrMan

end CryptoYen
