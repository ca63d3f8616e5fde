import CryptoYen.Library.PartialMap
import CryptoYen.Net.Address
import CryptoYen.Primitives.Transaction

set_option autoImplicit false

namespace CryptoYen

abbrev ADDRMAN_TRIED_BUCKET_COUNT : Nat := 256
abbrev ADDRMAN_NEW_BUCKET_COUNT : Nat := 1024
abbrev ADDRMAN_BUCKET_SIZE : Nat := 64

instance : NeZero ADDRMAN_NEW_BUCKET_COUNT := ⟨by decide⟩

def ADDRMAN_NEW_BUCKETS_PER_ADDRESS : Nat := 8
def ADDRMAN_HORIZON_DAYS : Int64 := 30
def ADDRMAN_RETRIES : Int32 := 3
def ADDRMAN_MAX_FAILURES : Int32 := 10
def ADDRMAN_MIN_FAIL_DAYS : Int64 := 7
def ADDRMAN_GETADDR_MAX_PCT : Nat := 23
def ADDRMAN_GETADDR_MAX : Nat := 2500

abbrev TriedSlot := Fin ADDRMAN_TRIED_BUCKET_COUNT × Fin ADDRMAN_BUCKET_SIZE
abbrev NewSlot := Fin ADDRMAN_NEW_BUCKET_COUNT × Fin ADDRMAN_BUCKET_SIZE

class AddrHasher where
  getTriedBucket : Uint256 → CService → Fin ADDRMAN_TRIED_BUCKET_COUNT
  getNewBucket : Uint256 → CNetAddr → CNetAddr → Fin ADDRMAN_NEW_BUCKET_COUNT
  getBucketPosition : Uint256 → Bool → Nat → CService → Fin ADDRMAN_BUCKET_SIZE

-- A time of the network in a comparison with one of the clock.
def widen (nTime : UInt32) : Int64 := nTime.toUInt64.toInt64

structure CAddrInfo extends CAddress where
  nLastTry : Int64
  source : CNetAddr
  nLastSuccess : Int64
  nAttempts : Int32
  nRefCount : Int
  fInTried : Bool
  nRandomPos : Int
  deriving DecidableEq, Repr

namespace CAddrInfo

def init (addrIn : CAddress) (addrSource : CNetAddr) : CAddrInfo :=
  ⟨addrIn, 0, addrSource, 0, 0, 0, false, -1⟩

def null : CAddrInfo := .init .null 0

variable [AddrHasher] (nKey : Uint256) (info : CAddrInfo)

def triedSlot : TriedSlot :=
  let bucket := AddrHasher.getTriedBucket nKey info.toCService
  (bucket, AddrHasher.getBucketPosition nKey false bucket.val info.toCService)

def newPosition (bucket : Fin ADDRMAN_NEW_BUCKET_COUNT) : Fin ADDRMAN_BUCKET_SIZE :=
  AddrHasher.getBucketPosition nKey true bucket.val info.toCService

def newSlot (src : CNetAddr) : NewSlot :=
  let bucket := AddrHasher.getNewBucket nKey info.ip src
  (bucket, info.newPosition nKey bucket)

omit [AddrHasher] in
def isTerrible (nNow : Int64) : Bool :=
  if info.nLastTry ≠ 0 ∧ nNow - 60 ≤ info.nLastTry then false
  else if nNow + 10 * 60 < widen info.nTime then true
  else if info.nTime = 0 ∨ ADDRMAN_HORIZON_DAYS * 24 * 60 * 60 < nNow - widen info.nTime then true
  else if info.nLastSuccess = 0 ∧ ADDRMAN_RETRIES ≤ info.nAttempts then true
  else ADDRMAN_MIN_FAIL_DAYS * 24 * 60 * 60 < nNow - info.nLastSuccess ∧
    ADDRMAN_MAX_FAILURES ≤ info.nAttempts

end CAddrInfo

structure CAddrMan where
  nKey : Uint256
  nIdCount : Nat
  mapInfo : AList fun _ : Nat => CAddrInfo
  mapAddr : AList fun _ : CNetAddr => Nat
  vRandom : List Nat
  nTried : Int
  vvTried : TriedSlot → Option Nat
  nNew : Int
  vvNew : NewSlot → Option Nat

namespace CAddrMan

-- CAddrMan(): the key is drawn at random.
def initial (nKey : Uint256) : CAddrMan :=
  ⟨nKey, 0, ∅, ∅, [], 0, fun _ => none, 0, fun _ => none⟩

-- Clear() leaves both maps as they are.
def clear (s : CAddrMan) (nKey : Uint256) : CAddrMan :=
  { initial nKey with mapInfo := s.mapInfo, mapAddr := s.mapAddr }

def find (s : CAddrMan) (addr : CNetAddr) : Option (Nat × CAddrInfo) :=
  (s.mapAddr.lookup addr).bind fun nId => (s.mapInfo.lookup nId).map fun info => (nId, info)

-- An entry that is held by reference is written where it is.
def update (s : CAddrMan) (nId : Nat) (info : CAddrInfo) : CAddrMan :=
  { s with mapInfo := s.mapInfo.insert nId info }

def create (s : CAddrMan) (addr : CAddress) (addrSource : CNetAddr) : Nat × CAddrMan :=
  let info := { CAddrInfo.init addr addrSource with nRandomPos := s.vRandom.length }
  (s.nIdCount,
    { s with
      nIdCount := s.nIdCount + 1
      mapInfo := s.mapInfo.insert s.nIdCount info
      mapAddr := s.mapAddr.insert addr.ip s.nIdCount
      vRandom := s.vRandom ++ [s.nIdCount] })

-- A failed assertion ends the run.
def swapRandom (s : CAddrMan) (nRndPos1 nRndPos2 : Nat) : Option CAddrMan :=
  if nRndPos1 = nRndPos2 then some s
  else do
    let nId1 ← s.vRandom[nRndPos1]?
    let nId2 ← s.vRandom[nRndPos2]?
    let info1 ← s.mapInfo.lookup nId1
    let info2 ← s.mapInfo.lookup nId2
    let moved := (s.update nId1 { info1 with nRandomPos := nRndPos2 }).update nId2
      { info2 with nRandomPos := nRndPos1 }
    some { moved with vRandom := (s.vRandom.set nRndPos1 nId2).set nRndPos2 nId1 }

-- As an unsigned int a negative position is past the end.
def delete (s : CAddrMan) (nId : Nat) : Option CAddrMan := do
  let info ← s.mapInfo.lookup nId
  if info.fInTried = true ∨ info.nRefCount ≠ 0 ∨ info.nRandomPos < 0 then none
  else
    let s ← s.swapRandom info.nRandomPos.toNat (s.vRandom.length - 1)
    some
      { s with
        vRandom := s.vRandom.dropLast
        mapAddr := s.mapAddr.erase info.ip
        mapInfo := s.mapInfo.erase nId
        nNew := s.nNew - 1 }

def release (s : CAddrMan) (slot : NewSlot) (nId : Nat) (info : CAddrInfo) : CAddrMan :=
  { s.update nId { info with nRefCount := info.nRefCount - 1 } with
    vvNew := Function.update s.vvNew slot none }

def clearNew (s : CAddrMan) (slot : NewSlot) : Option CAddrMan :=
  match s.vvNew slot with
  | none => some s
  | some nIdDelete => do
      let infoDelete ← s.mapInfo.lookup nIdDelete
      if infoDelete.nRefCount ≤ 0 then none
      else
        let s := s.release slot nIdDelete infoDelete
        if infoDelete.nRefCount - 1 = 0 then s.delete nIdDelete else some s

def leaveTried (s : CAddrMan) (slot : TriedSlot) (nId : Nat) (info : CAddrInfo) : CAddrMan :=
  { s.update nId { info with fInTried := false } with
    vvTried := Function.update s.vvTried slot none
    nTried := s.nTried - 1 }

variable [AddrHasher]

def leaveBucket (nId : Nat) (s : CAddrMan) (bucket : Fin ADDRMAN_NEW_BUCKET_COUNT) : CAddrMan :=
  match s.mapInfo.lookup nId with
  | none => s
  | some info =>
      let slot := (bucket, info.newPosition s.nKey bucket)
      if s.vvNew slot = some nId then s.release slot nId info else s

def leaveBuckets (s : CAddrMan) (nId : Nat) : CAddrMan :=
  (List.finRange ADDRMAN_NEW_BUCKET_COUNT).foldl (leaveBucket nId) s

omit [AddrHasher] in
def uncountNew (s : CAddrMan) : CAddrMan := { s with nNew := s.nNew - 1 }

def evict (s : CAddrMan) (slot : TriedSlot) : Option CAddrMan :=
  match s.vvTried slot with
  | none => some s
  | some nIdEvict => do
      let infoOld ← s.mapInfo.lookup nIdEvict
      let newSlot := infoOld.newSlot s.nKey infoOld.source
      let s ← (s.leaveTried slot nIdEvict infoOld).clearNew newSlot
      let infoOld ← s.mapInfo.lookup nIdEvict
      if s.vvNew newSlot ≠ none then none
      else
        some
          { s.update nIdEvict { infoOld with nRefCount := 1 } with
            vvNew := Function.update s.vvNew newSlot (some nIdEvict)
            nNew := s.nNew + 1 }

def enterTried (s : CAddrMan) (nId : Nat) : Option CAddrMan := do
  let info ← s.mapInfo.lookup nId
  if info.nRefCount ≠ 0 then none
  else
    let slot := info.triedSlot s.nKey
    let s ← s.evict slot
    let info ← s.mapInfo.lookup nId
    if s.vvTried slot ≠ none then none
    else
      some
        { s.update nId { info with fInTried := true } with
          vvTried := Function.update s.vvTried slot (some nId)
          nTried := s.nTried + 1 }

def makeTried (s : CAddrMan) (nId : Nat) : Option CAddrMan :=
  (s.leaveBuckets nId).uncountNew.enterTried nId

def inSomeBucket (s : CAddrMan) (nId : Nat) (info : CAddrInfo) (nRnd : Nat) : Bool :=
  (List.range ADDRMAN_NEW_BUCKET_COUNT).any fun n =>
    let nB := Fin.ofNat ADDRMAN_NEW_BUCKET_COUNT (n + nRnd)
    s.vvNew (nB, info.newPosition s.nKey nB) == some nId

def good (s : CAddrMan) (addr : CService) (nTime : Int64) (nRnd : Nat) : Option CAddrMan :=
  match s.find addr.ip with
  | none => some s
  | some (nId, info) =>
      if info.toCService ≠ addr then some s
      else
        let s := s.update nId
          { info with
            nLastSuccess := nTime
            nLastTry := nTime
            nAttempts := 0 }
        if info.fInTried = true then some s
        else if s.inSomeBucket nId info nRnd = true then s.makeTried nId
        else some s

def attempt (s : CAddrMan) (addr : CService) (nTime : Int64) : CAddrMan :=
  match s.find addr.ip with
  | none => s
  | some (nId, info) =>
      if info.toCService ≠ addr then s
      else s.update nId { info with nLastTry := nTime, nAttempts := info.nAttempts + 1 }

def connected (s : CAddrMan) (addr : CService) (nTime : Int64) : CAddrMan :=
  match s.find addr.ip with
  | none => s
  | some (nId, info) =>
      if info.toCService ≠ addr then s
      else if 20 * 60 < nTime - widen info.nTime then
        s.update nId { info with nTime := nTime.toUInt64.toUInt32 }
      else s

-- max((int64_t)0, nTime - nTimePenalty), cut to the field.
def penalized (nTime : UInt32) (nTimePenalty : Int64) : UInt32 :=
  (max 0 (widen nTime - nTimePenalty)).toUInt64.toUInt32

def refreshed (pinfo : CAddrInfo) (addr : CAddress) (nTimePenalty nNow : Int64) : CAddrInfo :=
  let fCurrentlyOnline : Bool := nNow - widen addr.nTime < 24 * 60 * 60
  let nUpdateInterval : Int64 := if fCurrentlyOnline then 60 * 60 else 24 * 60 * 60
  let newer : Bool := addr.nTime ≠ 0 ∧ (pinfo.nTime = 0 ∨
    widen pinfo.nTime < widen addr.nTime - nUpdateInterval - nTimePenalty)
  { pinfo with
    nTime := if newer then penalized addr.nTime nTimePenalty else pinfo.nTime
    nServices := pinfo.nServices ||| addr.nServices }

-- The tests after which a known entry gets no further reference: no news, tried, referenced often
-- enough, and a draw that is twice as hard with each reference.
def keepsPlaces (pinfo : CAddrInfo) (addr : CAddress) (nRnd : Nat) : Bool :=
  (addr.nTime = 0 ∨ (pinfo.nTime ≠ 0 ∧ addr.nTime ≤ pinfo.nTime)) ∨ pinfo.fInTried = true ∨
    pinfo.nRefCount = ADDRMAN_NEW_BUCKETS_PER_ADDRESS ∨
    (1 < 2 ^ pinfo.nRefCount.toNat ∧ nRnd % 2 ^ pinfo.nRefCount.toNat ≠ 0)

def givesWay (existing pinfo : CAddrInfo) (nNow : Int64) : Bool :=
  existing.isTerrible nNow || decide (1 < existing.nRefCount ∧ pinfo.nRefCount = 0)

omit [AddrHasher] in
def fInsert (s : CAddrMan) (slot : NewSlot) (pinfo : CAddrInfo) (nNow : Int64) : Bool :=
  match s.vvNew slot with
  | none => true
  | some existing => givesWay ((s.mapInfo.lookup existing).getD .null) pinfo nNow

def enter (s : CAddrMan) (nId : Nat) (source : CNetAddr) (nNow : Int64) : Option CAddrMan := do
  let pinfo ← s.mapInfo.lookup nId
  let slot := pinfo.newSlot s.nKey source
  if s.vvNew slot = some nId then some s
  else if s.fInsert slot pinfo nNow = true then
    let s ← s.clearNew slot
    let pinfo ← s.mapInfo.lookup nId
    some
      { s.update nId { pinfo with nRefCount := pinfo.nRefCount + 1 } with
        vvNew := Function.update s.vvNew slot (some nId) }
  else if pinfo.nRefCount = 0 then s.delete nId
  else some s

/-- The clock is read twice, for the announcement and for the entry that may be pushed out. -/
def add (s : CAddrMan) (addr : CAddress) (source : CNetAddr) (nTimePenalty nNow nLater : Int64)
    (nRnd : Nat) : Option (CAddrMan × Bool) :=
  if CNetAddr.isRoutable addr.ip = false then some (s, false)
  else
    match s.find addr.ip with
    | some (nId, info) =>
        let pinfo := refreshed info addr nTimePenalty nNow
        let s := s.update nId pinfo
        if keepsPlaces pinfo addr nRnd = true then some (s, false)
        else (s.enter nId source nLater).map fun s => (s, false)
    | none =>
        let (nId, s) := s.create addr source
        let pinfo := (s.mapInfo.lookup nId).getD .null
        let s := s.update nId { pinfo with nTime := penalized pinfo.nTime nTimePenalty }
        ({ s with nNew := s.nNew + 1 }.enter nId source nLater).map fun s => (s, true)

omit [AddrHasher] in
def gather (nNodes : Nat) (nRnd : Nat → Nat) (nNow : Nat → Int64) :
    List Nat → CAddrMan → List CAddress → Option (CAddrMan × List CAddress)
  | [], s, vAddr => some (s, vAddr)
  | n :: rest, s, vAddr =>
      if nNodes ≤ vAddr.length then some (s, vAddr)
      else do
        let s ← s.swapRandom n (nRnd n % (s.vRandom.length - n) + n)
        let nId ← s.vRandom[n]?
        let ai ← s.mapInfo.lookup nId
        gather nNodes nRnd nNow rest s
          (if ai.isTerrible (nNow n) then vAddr else vAddr ++ [ai.toCAddress])

omit [AddrHasher] in
def getAddr (s : CAddrMan) (nRnd : Nat → Nat) (nNow : Nat → Int64) :
    Option (CAddrMan × List CAddress) :=
  let nNodes := min (ADDRMAN_GETADDR_MAX_PCT * s.vRandom.length / 100) ADDRMAN_GETADDR_MAX
  gather nNodes nRnd nNow (List.range s.vRandom.length) s []

end CAddrMan

end CryptoYen
