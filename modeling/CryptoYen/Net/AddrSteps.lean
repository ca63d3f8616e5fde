import CryptoYen.Net.AddrTables

set_option autoImplicit false

namespace CryptoYen.CAddrMan

open PartialMap

def Keeps (s t : CAddrMan) (nId : Nat) : Prop :=
  ∀ info, s.mapInfo.lookup nId = some info →
    ∃ place, t.mapInfo.lookup nId = some { info with nRandomPos := place }

theorem Keeps.refl (s : CAddrMan) (nId : Nat) : Keeps s s nId :=
  fun info known => ⟨info.nRandomPos, known⟩

theorem Keeps.trans {s t u : CAddrMan} {nId : Nat} (first : Keeps s t nId)
    (second : Keeps t u nId) : Keeps s u nId := by
  intro info known
  obtain ⟨place, there⟩ := first info known
  obtain ⟨last, here⟩ := second _ there
  exact ⟨last, here⟩

theorem Keeps.other {s t : CAddrMan} {nId other : Nat} {new : CAddrInfo}
    (entry : t.mapInfo = s.mapInfo.insert nId new) (differs : other ≠ nId) : Keeps s t other := by
  intro info known
  refine ⟨info.nRandomPos, ?_⟩
  rw [entry, Assoc.lookup_insert, if_neg differs, known]

variable [AddrHasher] {s t : CAddrMan} {nId : Nat} {old new : CAddrInfo} {free : Set Nat}
  {owed : Int}

theorem triedPlaces_edit (known : s.mapInfo.lookup nId = some old)
    (entry : t.mapInfo = s.mapInfo.insert nId new) (key : t.nKey = s.nKey)
    (service : new.toCService = old.toCService) (status : new.fInTried = old.fInTried) :
    t.triedPlaces = s.triedPlaces := by
  rw [triedPlaces, entry, key]
  refine projected_same _ _ _ old _ known ?_
  simp only [CAddrInfo.triedSlot, service, status]

theorem Placed.new_edit (placed : s.Placed free) (known : s.mapInfo.lookup nId = some old)
    (entry : t.mapInfo = s.mapInfo.insert nId new) (key : t.nKey = s.nKey)
    (service : new.toCService = old.toCService) (status : new.fInTried = old.fInTried)
    (slots : ∀ slot other, t.vvNew slot = some other → s.vvNew slot = some other ∨
      (other = nId ∧ new.fInTried = false ∧ slot.2 = new.newPosition t.nKey slot.1))
    (slot : NewSlot) (other : Nat) (used : t.vvNew slot = some other) :
    ∃ info, t.mapInfo.lookup other = some info ∧ info.fInTried = false ∧
      slot.2 = info.newPosition t.nKey slot.1 := by
  rw [entry, Assoc.lookup_insert]
  cases slots slot other used with
  | inl before =>
      obtain ⟨info, present, untried, place⟩ := placed.new slot other before
      by_cases same : other = nId
      next =>
        rw [same, known] at present
        cases present
        refine ⟨new, if_pos same, status.trans untried, ?_⟩
        simp only [CAddrInfo.newPosition, service, key]
        exact place
      next => exact ⟨info, (if_neg same).trans present, untried, key ▸ place⟩
  | inr added => exact ⟨new, if_pos added.1, added.2⟩

theorem Placed.edit (placed : s.Placed free) (known : s.mapInfo.lookup nId = some old)
    (entry : t.mapInfo = s.mapInfo.insert nId new) (key : t.nKey = s.nKey)
    (tried : t.vvTried = s.vvTried) (slots : t.vvNew = s.vvNew)
    (service : new.toCService = old.toCService) (refs : new.nRefCount = old.nRefCount)
    (status : new.fInTried = old.fInTried) : t.Placed free := by
  constructor
  · rw [triedPlaces_edit known entry key service status, tried]
    exact placed.tried
  · exact placed.new_edit known entry key service status fun slot other used =>
      Or.inl (slots ▸ used)
  · rw [entry, slots]
    exact Assoc.forall_lookup_insert s.mapInfo nId new (refs.trans (placed.refs nId old known))
      fun other info _ present => placed.refs other info present
  · rw [entry]
    exact Assoc.forall_lookup_insert s.mapInfo nId new (refs ▸ placed.limit nId old known)
      fun other info _ present => placed.limit other info present
  · rw [entry]
    refine Assoc.forall_lookup_insert s.mapInfo nId new (fun untried taken => ?_)
      fun other info _ present => placed.referenced other info present
    rw [refs]
    exact placed.referenced nId old known (status ▸ untried) taken

theorem Between.touch (inv : s.Between free owed) (known : s.mapInfo.lookup nId = some old)
    (service : new.toCService = old.toCService) (place : new.nRandomPos = old.nRandomPos)
    (refs : new.nRefCount = old.nRefCount) (status : new.fInTried = old.fInTried)
    (tries : 0 ≤ new.nLastTry) (successes : 0 ≤ new.nLastSuccess)
    (reached : new.fInTried = true → new.nLastSuccess ≠ 0) :
    (s.update nId new).Between free owed where
  listed := inv.listed.edit known rfl rfl rfl rfl (congrArg CService.ip service) place
  placed := inv.placed.edit known rfl rfl rfl rfl service refs status
  counted := inv.counted.same known rfl rfl rfl status
  timed := inv.timed.edit rfl tries successes reached

theorem Between.release (inv : s.Between free owed) (slot : NewSlot)
    (used : s.vvNew slot = some nId) (known : s.mapInfo.lookup nId = some old) :
    (s.release slot nId old).Between (insert nId free) owed := by
  have entry : (s.release slot nId old).mapInfo =
      s.mapInfo.insert nId { old with nRefCount := old.nRefCount - 1 } := rfl
  have slots : (s.release slot nId old).vvNew = Function.update s.vvNew slot none := rfl
  have counts := count_clear s.vvNew slot nId
  constructor
  · exact inv.listed.edit known entry rfl rfl rfl rfl rfl
  · constructor
    · rw [triedPlaces_edit known entry rfl rfl rfl]
      exact inv.placed.tried
    · refine inv.placed.new_edit known entry rfl rfl rfl fun place other present => Or.inl ?_
      rw [slots, Function.update_apply] at present
      split at present
      next => cases present
      next => exact present
    · rw [entry, slots]
      refine Assoc.forall_lookup_insert s.mapInfo nId _ ?_ fun other info differs present => ?_
      · have before := inv.placed.refs nId old known
        have count_here := counts nId used
        rw [if_pos rfl] at count_here
        simp only
        omega
      · have before := inv.placed.refs other info present
        have count_other := counts other used
        rw [if_neg differs] at count_other
        omega
    · rw [entry]
      refine Assoc.forall_lookup_insert s.mapInfo nId _ ?_ fun other info _ =>
        inv.placed.limit other info
      have before := inv.placed.limit nId old known
      simp only
      omega
    · rw [entry]
      refine Assoc.forall_lookup_insert s.mapInfo nId _ ?_
        fun other info _ present untried taken => ?_
      · exact fun _ taken => absurd (Set.mem_insert nId free) taken
      · exact inv.placed.referenced other info present untried fun inside =>
          taken (Set.mem_insert_of_mem nId inside)
  · exact inv.counted.edit known entry rfl rfl
  · obtain ⟨tries, successes, reached⟩ := inv.timed nId old known
    exact inv.timed.edit entry tries successes reached

theorem Between.acquire {due : Int} (inv : s.Between free owed) (slot : NewSlot) (empty : s.vvNew slot = none)
    (known : s.mapInfo.lookup nId = some old) (untried : old.fInTried = false)
    (place : slot.2 = old.newPosition s.nKey slot.1)
    (room : old.nRefCount < ADDRMAN_NEW_BUCKETS_PER_ADDRESS)
    (entry : t.mapInfo = s.mapInfo.insert nId { old with nRefCount := old.nRefCount + 1 })
    (slots : t.vvNew = Function.update s.vvNew slot (some nId)) (key : t.nKey = s.nKey)
    (tried : t.vvTried = s.vvTried) (listed : t.Listed) (counted : t.Counted due) :
    t.Between (free \ {nId}) due := by
  have counts := count_write s.vvNew slot nId
  constructor
  · exact listed
  · constructor
    · rw [triedPlaces_edit known entry key rfl rfl, tried]
      exact inv.placed.tried
    · refine inv.placed.new_edit known entry key rfl rfl fun spot other present => ?_
      rw [slots, Function.update_apply] at present
      split at present
      next here =>
        cases present
        refine Or.inr ⟨rfl, untried, ?_⟩
        rw [here, key]
        exact place
      next => exact Or.inl present
    · rw [entry, slots]
      refine Assoc.forall_lookup_insert s.mapInfo nId _ ?_ fun other info differs present => ?_
      · have before := inv.placed.refs nId old known
        have count_here := counts nId empty
        rw [if_pos rfl] at count_here
        simp only
        omega
      · have before := inv.placed.refs other info present
        have count_other := counts other empty
        rw [if_neg differs] at count_other
        omega
    · rw [entry]
      refine Assoc.forall_lookup_insert s.mapInfo nId _ ?_ fun other info _ =>
        inv.placed.limit other info
      simp only
      omega
    · rw [entry]
      refine Assoc.forall_lookup_insert s.mapInfo nId _ (fun _ _ => ?_)
        fun other info differs present status taken => ?_
      · have before := inv.placed.refs nId old known
        simp only
        omega
      · exact inv.placed.referenced other info present status fun inside =>
          taken ⟨inside, differs⟩
  · exact counted
  · obtain ⟨tries, successes, reached⟩ := inv.timed nId old known
    exact inv.timed.edit entry tries successes reached

theorem Between.demote (inv : s.Between free owed) (slot : TriedSlot)
    (used : s.vvTried slot = some nId) (known : s.mapInfo.lookup nId = some old)
    (status : old.fInTried = true) :
    (s.leaveTried slot nId old).Between (insert nId free) (owed + 1) := by
  have entry : (s.leaveTried slot nId old).mapInfo =
      s.mapInfo.insert nId { old with fInTried := false } := rfl
  have slots : (s.leaveTried slot nId old).vvTried = Function.update s.vvTried slot none := rfl
  have new_slots : (s.leaveTried slot nId old).vvNew = s.vvNew := rfl
  constructor
  · exact inv.listed.edit known rfl rfl rfl rfl rfl rfl
  · constructor
    · have places : (s.leaveTried slot nId old).triedPlaces =
          Function.update s.triedPlaces nId none := by
        rw [triedPlaces, entry, projected_insert]
        rfl
      rw [slots, places]
      exact inv.placed.tried.drop slot nId used
    · intro spot other present
      rw [new_slots] at present
      obtain ⟨info, there, untried, place⟩ := inv.placed.new spot other present
      have differs : other ≠ nId := by
        intro same
        rw [same, known] at there
        cases there
        rw [status] at untried
        cases untried
      refine ⟨info, ?_, untried, place⟩
      rw [entry, Assoc.lookup_insert, if_neg differs, there]
    · rw [entry, new_slots]
      exact Assoc.forall_lookup_insert s.mapInfo nId _ (inv.placed.refs nId old known)
        fun other info _ => inv.placed.refs other info
    · rw [entry]
      exact Assoc.forall_lookup_insert s.mapInfo nId _ (inv.placed.limit nId old known)
        fun other info _ => inv.placed.limit other info
    · rw [entry]
      refine Assoc.forall_lookup_insert s.mapInfo nId _ ?_
        fun other info _ present untried taken => ?_
      · exact fun _ taken => absurd (Set.mem_insert nId free) taken
      · exact inv.placed.referenced other info present untried fun inside =>
          taken (Set.mem_insert_of_mem nId inside)
  · refine inv.counted.edit known rfl ?_ ?_
    · simp [leaveTried, triedMark, status]
    · simp [leaveTried, newMark, status, update, add_assoc]
  · obtain ⟨tries, successes, _⟩ := inv.timed nId old known
    exact inv.timed.edit entry tries successes fun tried => by cases tried

theorem Between.promote {due : Int} (inv : s.Between free owed) (known : s.mapInfo.lookup nId = some old)
    (status : old.fInTried = false) (unreferenced : old.nRefCount = 0)
    (reached : old.nLastSuccess ≠ 0) (empty : s.vvTried (old.triedSlot s.nKey) = none)
    (entry : t.mapInfo = s.mapInfo.insert nId { old with fInTried := true })
    (slots : t.vvTried = Function.update s.vvTried (old.triedSlot s.nKey) (some nId))
    (key : t.nKey = s.nKey) (new_slots : t.vvNew = s.vvNew) (listed : t.Listed)
    (counted : t.Counted due) : t.Between (free \ {nId}) due := by
  have nowhere : count s.vvNew nId = 0 := by
    have refs := inv.placed.refs nId old known
    omega
  constructor
  · exact listed
  · constructor
    · have fresh : s.triedPlaces nId = none := by simp [triedPlaces, projected, known, status]
      have places :
          t.triedPlaces = Function.update s.triedPlaces nId (some (old.triedSlot s.nKey)) := by
        rw [triedPlaces, entry, key, projected_insert]
        rfl
      rw [slots, places]
      exact inv.placed.tried.pair _ nId empty fresh
    · intro spot other present
      rw [new_slots] at present
      obtain ⟨info, there, untried, place⟩ := inv.placed.new spot other present
      have differs : other ≠ nId := by
        intro same
        have positive := count_pos s.vvNew spot other present
        rw [same, nowhere] at positive
        exact Nat.lt_irrefl 0 positive
      refine ⟨info, ?_, untried, key ▸ place⟩
      rw [entry, Assoc.lookup_insert, if_neg differs, there]
    · rw [entry, new_slots]
      exact Assoc.forall_lookup_insert s.mapInfo nId _ (inv.placed.refs nId old known)
        fun other info _ => inv.placed.refs other info
    · rw [entry]
      exact Assoc.forall_lookup_insert s.mapInfo nId _ (inv.placed.limit nId old known)
        fun other info _ => inv.placed.limit other info
    · rw [entry]
      refine Assoc.forall_lookup_insert s.mapInfo nId _ (fun untried => by cases untried)
        fun other info differs present untried taken => ?_
      exact inv.placed.referenced other info present untried fun inside =>
        taken ⟨inside, differs⟩
  · exact counted
  · obtain ⟨tries, successes, _⟩ := inv.timed nId old known
    exact inv.timed.edit entry tries successes fun _ => reached

end CryptoYen.CAddrMan
