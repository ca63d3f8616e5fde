import Mathlib.Data.Fintype.Prod
import CryptoYen.Net.AddrMan

set_option autoImplicit false

namespace CryptoYen.CAddrMan

open PartialMap

def positions (s : CAddrMan) : Nat → Option Int :=
  projected (fun info => some info.nRandomPos) s.mapInfo

def addresses (s : CAddrMan) : Nat → Option CNetAddr := projected (fun info => some info.ip) s.mapInfo

def triedMark (info : CAddrInfo) : Int := if info.fInTried then 1 else 0

def newMark (info : CAddrInfo) : Int := if info.fInTried then 0 else 1

/-- vRandom lists the known ids, and mapAddr is the inverse of mapInfo. -/
structure Listed (s : CAddrMan) : Prop where
  random : Inverse (atPosition s.vRandom) s.positions
  addr : Inverse s.mapAddr.lookup s.addresses
  below : ∀ nId info, s.mapInfo.lookup nId = some info → nId < s.nIdCount

structure Counted (owed : Int) (s : CAddrMan) : Prop where
  tried : s.nTried = Assoc.sumBy triedMark s.mapInfo
  new : s.nNew + owed = Assoc.sumBy newMark s.mapInfo

def Timed (s : CAddrMan) : Prop :=
  ∀ nId info, s.mapInfo.lookup nId = some info →
    0 ≤ info.nLastTry ∧ 0 ≤ info.nLastSuccess ∧ (info.fInTried = true → info.nLastSuccess ≠ 0)

section Placing

variable [AddrHasher]

def triedPlaces (s : CAddrMan) : Nat → Option TriedSlot :=
  projected (fun info => if info.fInTried then some (info.triedSlot s.nKey) else none) s.mapInfo

/-- Every slot is the one of its entry, which counts its new slots; only the free entries may be
without any. -/
structure Placed (free : Set Nat) (s : CAddrMan) : Prop where
  tried : Inverse s.vvTried s.triedPlaces
  new : ∀ slot nId, s.vvNew slot = some nId →
    ∃ info, s.mapInfo.lookup nId = some info ∧ info.fInTried = false ∧
      slot.2 = info.newPosition s.nKey slot.1
  refs : ∀ nId info, s.mapInfo.lookup nId = some info → info.nRefCount = count s.vvNew nId
  limit : ∀ nId info, s.mapInfo.lookup nId = some info →
    info.nRefCount ≤ ADDRMAN_NEW_BUCKETS_PER_ADDRESS
  referenced : ∀ nId info, s.mapInfo.lookup nId = some info → info.fInTried = false →
    nId ∉ free → 0 < info.nRefCount

structure Between (free : Set Nat) (owed : Int) (s : CAddrMan) : Prop where
  listed : s.Listed
  placed : s.Placed free
  counted : s.Counted owed
  timed : s.Timed

abbrev Consistent (s : CAddrMan) : Prop := s.Between ∅ 0

end Placing

section Edits

variable {s t : CAddrMan} {nId : Nat} {old new : CAddrInfo}

theorem addresses_edit (known : s.mapInfo.lookup nId = some old)
    (entry : t.mapInfo = s.mapInfo.insert nId new) (ip : new.ip = old.ip) :
    t.addresses = s.addresses := by
  rw [addresses, entry]
  exact projected_same _ _ _ old _ known (congrArg some ip)

theorem below_edit (below : ∀ nId info, s.mapInfo.lookup nId = some info → nId < s.nIdCount)
    (known : s.mapInfo.lookup nId = some old) (entry : t.mapInfo = s.mapInfo.insert nId new)
    (ids : t.nIdCount = s.nIdCount) :
    ∀ nId info, t.mapInfo.lookup nId = some info → nId < t.nIdCount := by
  rw [entry, ids]
  exact Assoc.forall_lookup_insert s.mapInfo nId new (below nId old known)
    fun other info _ present => below other info present

theorem Listed.edit (listed : s.Listed) (known : s.mapInfo.lookup nId = some old)
    (entry : t.mapInfo = s.mapInfo.insert nId new) (vector : t.vRandom = s.vRandom)
    (names : t.mapAddr = s.mapAddr) (ids : t.nIdCount = s.nIdCount)
    (ip : new.ip = old.ip) (place : new.nRandomPos = old.nRandomPos) : t.Listed := by
  have positions_same : t.positions = s.positions := by
    rw [positions, entry]
    exact projected_same _ _ _ old _ known (congrArg some place)
  constructor
  · rw [vector, positions_same]
    exact listed.random
  · rw [names, addresses_edit known entry ip]
    exact listed.addr
  · exact below_edit listed.below known entry ids

theorem Counted.edit {owed due : Int} (counted : s.Counted owed)
    (known : s.mapInfo.lookup nId = some old) (entry : t.mapInfo = s.mapInfo.insert nId new)
    (tried : t.nTried + triedMark old = s.nTried + triedMark new)
    (fresh : t.nNew + due + newMark old = s.nNew + owed + newMark new) : t.Counted due := by
  have tried_sum := Assoc.sumBy_replace triedMark s.mapInfo nId old new known
  have new_sum := Assoc.sumBy_replace newMark s.mapInfo nId old new known
  constructor
  · have before := counted.tried
    rw [entry]
    omega
  · have before := counted.new
    rw [entry]
    omega

theorem Counted.same {owed : Int} (counted : s.Counted owed) (known : s.mapInfo.lookup nId = some old)
    (entry : t.mapInfo = s.mapInfo.insert nId new) (tried : t.nTried = s.nTried)
    (fresh : t.nNew = s.nNew) (status : new.fInTried = old.fInTried) : t.Counted owed := by
  refine counted.edit known entry ?_ ?_
  · simp only [triedMark, status, tried]
  · simp only [newMark, status, fresh]

theorem Timed.edit (timed : s.Timed) (entry : t.mapInfo = s.mapInfo.insert nId new)
    (tries : 0 ≤ new.nLastTry) (successes : 0 ≤ new.nLastSuccess)
    (reached : new.fInTried = true → new.nLastSuccess ≠ 0) : t.Timed := by
  rw [Timed, entry]
  exact Assoc.forall_lookup_insert s.mapInfo nId new ⟨tries, successes, reached⟩
    fun other info _ present => timed other info present

variable [AddrHasher]

theorem Placed.mono {free wider : Set Nat} (placed : s.Placed free) (more : free ⊆ wider) :
    s.Placed wider :=
  { placed with
    referenced := fun nId info known untried taken =>
      placed.referenced nId info known untried fun inside => taken (more inside) }

theorem Between.mono {free wider : Set Nat} {owed : Int} (inv : s.Between free owed)
    (more : free ⊆ wider) : s.Between wider owed :=
  { inv with placed := inv.placed.mono more }

theorem Between.claim {free : Set Nat} {owed : Int} (inv : s.Between free owed)
    (known : s.mapInfo.lookup nId = some old) (positive : 0 < old.nRefCount) :
    s.Between (free \ {nId}) owed := by
  refine { inv with placed := { inv.placed with referenced := ?_ } }
  intro other info present untried taken
  by_cases same : other = nId
  next =>
    rw [same, known] at present
    cases present
    exact positive
  next => exact inv.placed.referenced other info present untried fun inside => taken ⟨inside, same⟩

end Edits

end CryptoYen.CAddrMan
