import CryptoYen.Net.AddrCheck
import CryptoYen.Primitives.Format

set_option autoImplicit false

namespace CryptoYen

def htons (port : BitVec 16) : BitVec 16 := port.rotateLeft 8

theorem htons_htons (port : BitVec 16) : htons (htons port) = port := by
  refine BitVec.eq_of_getElem_eq fun i within => ?_
  simp only [htons, BitVec.getElem_rotateLeft]
  have half : i < 8 ∨ 8 ≤ i := by omega
  cases half with
  | inl low =>
      rw [dif_pos (by omega), dif_neg (by omega)]
      congr 1
      omega
  | inr high =>
      rw [dif_neg (by omega), dif_pos (by omega)]
      congr 1
      omega

namespace CAddrInfo

-- What is written of an entry; the rest is memory only.
def stored (info : CAddrInfo) : CAddrInfo :=
  { init info.toCAddress info.source with
    nLastSuccess := info.nLastSuccess
    nAttempts := info.nAttempts }

end CAddrInfo

structure PeersHeader where
  nVersion : UInt8
  nKeySize : UInt8
  nKey : Uint256
  nNew : Int
  nTried : Int
  nUBuckets : BitVec 32
  deriving DecidableEq, Repr

-- The bit that makes older versions take the file for incompatible is taken off.
def PeersHeader.bucketCount (header : PeersHeader) : Int :=
  (if header.nVersion = 0 then header.nUBuckets else header.nUBuckets ^^^ 0x40000000).toInt

structure PeersFile extends PeersHeader where
  infosNew : List CAddrInfo
  infosTried : List CAddrInfo
  buckets : List (Int × List Int)
  deriving DecidableEq, Repr

namespace Format

def byte : Codec String UInt8 := .byte streamFailures

def netAddr : Codec String CNetAddr :=
  (Codec.nat streamFailures 16).via BitVec.toNat (BitVec.ofNat 128)

def service : Codec String CService :=
  (netAddr.pair (Codec.nat streamFailures 2)).via (fun s => (s.ip, (htons s.port).toNat))
    fun (ip, portN) => ⟨ip, htons (BitVec.ofNat 16 portN)⟩

-- On disk the version of the client comes first, which reading passes over.
def address : Codec String CAddress :=
  (int32.pair (uint32.pair ((Codec.nat streamFailures 8).pair service))).via
    (fun a => (CLIENT_VERSION, a.nTime.toNat, a.nServices.toNat, a.toCService))
    fun (_, nTime, nServices, service) => ⟨service, .ofNat nServices, .ofNat nTime⟩

def addrInfo : Codec String CAddrInfo :=
  (address.pair (netAddr.pair ((Codec.nat streamFailures 8).pair uint32))).via
    (fun info => (info.toCAddress, info.source, info.nLastSuccess.toUInt64.toNat,
      info.nAttempts.toUInt32.toNat))
    fun (addr, source, nLastSuccess, nAttempts) =>
      { CAddrInfo.init addr source with
        nLastSuccess := (UInt64.ofNat nLastSuccess).toInt64
        nAttempts := (UInt32.ofNat nAttempts).toInt32 }

def peersHeader : Codec String PeersHeader :=
  (byte.pair ((byte.ensure (· == 32) "Incorrect keysize in addrman deserialization").pair
    (uint256.pair (int32.pair (int32.pair (uint32.via BitVec.toNat (BitVec.ofNat 32))))))).via
    (fun h => (h.nVersion, h.nKeySize, h.nKey, h.nNew, h.nTried, h.nUBuckets))
    fun (nVersion, nKeySize, nKey, nNew, nTried, nUBuckets) =>
      ⟨nVersion, nKeySize, nKey, nNew, nTried, nUBuckets⟩

theorem peersHeader_back (header : PeersHeader) : peersHeader.back header = header := by
  simp [peersHeader, byte, Codec.byte, Codec.ensure, Codec.via, Codec.pair, Codec.nat, uint256_back,
    uint32, int32]

-- A negative count is none at all.
def bucket : Codec String (Int × List Int) :=
  int32.depend (fun nSize => int32.times nSize.toNat) fun _ => rfl

def peersFile : Codec String PeersFile :=
  (peersHeader.depend
    (fun header => (addrInfo.times header.nNew.toNat).pair
      ((addrInfo.times header.nTried.toNat).pair (bucket.times header.bucketCount.toNat)))
    peersHeader_back).via
    (fun file => (file.toPeersHeader, file.infosNew, file.infosTried, file.buckets))
    fun (header, infosNew, infosTried, buckets) => ⟨header, infosNew, infosTried, buckets⟩

theorem netAddr_back (addr : CNetAddr) : netAddr.back addr = addr := by
  simp [netAddr, Codec.via, Codec.nat]

theorem netAddr_typed (addr : CNetAddr) : netAddr.Typed addr := addr.isLt

theorem addrInfo_back (info : CAddrInfo) : addrInfo.back info = info.stored := by
  simp [addrInfo, address, service, Codec.via, Codec.pair, netAddr_back, CAddrInfo.stored,
    Codec.nat, uint32, htons_htons]

theorem addrInfo_typed (info : CAddrInfo) : addrInfo.Typed info := by
  have version : Int32 CLIENT_VERSION := by decide
  have port := (htons info.port).isLt
  have services := info.nServices.toNat_lt
  have time := info.nTime.toNat_lt
  have success := info.nLastSuccess.toUInt64.toNat_lt
  have attempts := info.nAttempts.toUInt32.toNat_lt
  exact ⟨⟨version, time, services, netAddr_typed info.ip, port⟩, netAddr_typed info.source, success,
    attempts⟩

theorem addrInfo_fits (info : CAddrInfo) : addrInfo.Fits info :=
  ⟨⟨trivial, trivial, trivial, trivial, trivial⟩, trivial, trivial, trivial⟩

theorem peersFile_typed (file : PeersFile) (new_count : Int32 file.nNew)
    (tried_count : Int32 file.nTried) (new : file.infosNew.length = file.nNew.toNat)
    (tried : file.infosTried.length = file.nTried.toNat)
    (buckets : file.buckets.length = file.bucketCount.toNat)
    (each : ∀ entry ∈ file.buckets, bucket.Typed entry) : peersFile.Typed file := by
  have version : file.nVersion.toNat < 256 ^ 1 := file.nVersion.toNat_lt
  have keySize : file.nKeySize.toNat < 256 ^ 1 := file.nKeySize.toNat_lt
  have header : peersHeader.Typed file.toPeersHeader :=
    ⟨version, keySize, uint256_typed file.nKey, new_count, tried_count, file.nUBuckets.isLt⟩
  exact ⟨header, ⟨new, fun info _ => addrInfo_typed info⟩,
    ⟨tried, fun info _ => addrInfo_typed info⟩, buckets, each⟩

theorem peersFile_fits (file : PeersFile) (keySize : file.nKeySize = 32) :
    peersFile.Fits file := by
  have size : (byte.back file.nKeySize == 32) = true := by simp [keySize, byte, Codec.byte,
    Codec.via, Codec.nat]
  exact ⟨⟨trivial, ⟨trivial, size⟩, trivial, trivial, trivial, trivial⟩,
    fun info _ => addrInfo_fits info, fun info _ => addrInfo_fits info,
    fun _ _ => ⟨trivial, fun _ _ => trivial⟩⟩

theorem bucket_back (entry : Int × List Int) : bucket.back entry = entry :=
  Prod.ext rfl (List.map_id entry.2)

theorem peersFile_back (file : PeersFile) :
    peersFile.back file =
      { file with
        infosNew := file.infosNew.map CAddrInfo.stored
        infosTried := file.infosTried.map CAddrInfo.stored } := by
  have buckets : file.buckets.map bucket.back = file.buckets :=
    (List.map_congr_left fun entry _ => bucket_back entry).trans (List.map_id _)
  have infos : addrInfo.back = CAddrInfo.stored := funext addrInfo_back
  simp only [peersFile, Codec.via, Codec.depend, Codec.pair, Codec.times, buckets, infos]

end Format

namespace CAddrMan

def unkIds : Nat → List (Nat × CAddrInfo) → List (Nat × Nat)
  | _, [] => []
  | nIds, (nId, info) :: rest =>
      (nId, nIds) :: unkIds (if info.nRefCount ≠ 0 then nIds + 1 else nIds) rest

-- The entries that are written; one more than was counted fails an assertion.
def writeInfos (limit : Int) : Nat → List CAddrInfo → Option (List CAddrInfo)
  | _, [] => some []
  | nIds, info :: rest =>
      if (nIds : Int) = limit then none
      else (writeInfos limit (nIds + 1) rest).map fun written => info :: written

def writeBucket (s : CAddrMan) (mapUnkIds : AList fun _ : Nat => Nat)
    (bucket : Fin ADDRMAN_NEW_BUCKET_COUNT) : Int × List Int :=
  let indexes := (List.finRange ADDRMAN_BUCKET_SIZE).filterMap fun i =>
    (s.vvNew (bucket, i)).map fun nId => ((mapUnkIds.lookup nId).getD 0 : Int)
  (indexes.length, indexes)

def infosNew (s : CAddrMan) : List CAddrInfo :=
  (s.infos.filter fun entry => entry.2.nRefCount ≠ 0).map Prod.snd

def infosTried (s : CAddrMan) : List CAddrInfo :=
  (s.infos.filter fun entry => entry.2.fInTried).map Prod.snd

def serialize (s : CAddrMan) : Option PeersFile := do
  let infosNew ← writeInfos s.nNew 0 s.infosNew
  let infosTried ← writeInfos s.nTried 0 s.infosTried
  let mapUnkIds := Codec.fromEntries (unkIds 0 s.infos)
  some
    { nVersion := 1
      nKeySize := 32
      nKey := s.nKey
      nNew := s.nNew
      nTried := s.nTried
      nUBuckets := BitVec.ofNat 32 ADDRMAN_NEW_BUCKET_COUNT ^^^ 0x40000000
      infosNew := infosNew
      infosTried := infosTried
      buckets := (List.finRange ADDRMAN_NEW_BUCKET_COUNT).map (s.writeBucket mapUnkIds) }

variable [AddrHasher]

-- Entries of the new table; where the buckets cannot be used, each gets the slot of its source.
def readNew (usable : Bool) (s : CAddrMan) (n : Nat) (read : CAddrInfo) : CAddrMan :=
  let old := (s.mapInfo.lookup n).getD .null
  let info :=
    { read with
      nLastTry := old.nLastTry
      nRefCount := old.nRefCount
      fInTried := old.fInTried
      nRandomPos := s.vRandom.length }
  let slot := info.newSlot s.nKey info.source
  let placed := !usable && (s.vvNew slot).isNone
  { s with
    mapInfo := s.mapInfo.insert n
      { info with nRefCount := info.nRefCount + if placed then 1 else 0 }
    mapAddr := s.mapAddr.insert info.ip n
    vRandom := s.vRandom ++ [n]
    vvNew := if placed then Function.update s.vvNew slot (some n) else s.vvNew }

def readAllNew (usable : Bool) : CAddrMan → Nat → List CAddrInfo → CAddrMan
  | s, _, [] => s
  | s, n, read :: rest => readAllNew usable (s.readNew usable n read) (n + 1) rest

-- Entries of the tried table; one whose slot is taken is lost.
def readTried (s : CAddrMan) (nLost : Int) (read : CAddrInfo) : CAddrMan × Int :=
  let slot := read.triedSlot s.nKey
  if s.vvTried slot = none then
    let info := { read with nRandomPos := s.vRandom.length, fInTried := true }
    ({ s with
        vRandom := s.vRandom ++ [s.nIdCount]
        mapInfo := s.mapInfo.insert s.nIdCount info
        mapAddr := s.mapAddr.insert info.ip s.nIdCount
        vvTried := Function.update s.vvTried slot (some s.nIdCount)
        nIdCount := s.nIdCount + 1 }, nLost)
  else (s, nLost + 1)

def readAllTried : CAddrMan → Int → List CAddrInfo → CAddrMan × Int
  | s, nLost, [] => (s, nLost)
  | s, nLost, read :: rest =>
      let (next, lost) := s.readTried nLost read
      readAllTried next lost rest

def readIndex (usable : Bool) (bucket : Nat) (s : CAddrMan) (nIndex : Int) : CAddrMan :=
  if 0 ≤ nIndex ∧ nIndex < s.nNew then
    let info := (s.mapInfo.lookup nIndex.toNat).getD .null
    let nB := Fin.ofNat ADDRMAN_NEW_BUCKET_COUNT bucket
    let slot := (nB, info.newPosition s.nKey nB)
    if usable = true ∧ s.vvNew slot = none ∧ info.nRefCount < ADDRMAN_NEW_BUCKETS_PER_ADDRESS then
      { s.update nIndex.toNat { info with nRefCount := info.nRefCount + 1 } with
        vvNew := Function.update s.vvNew slot (some nIndex.toNat) }
    else s
  else s

def readBuckets (usable : Bool) (s : CAddrMan) (buckets : List (Int × List Int)) : CAddrMan :=
  buckets.zipIdx.foldl
    (fun s (entry, bucket) => entry.2.foldl (readIndex usable bucket) s) s

omit [AddrHasher] in
def prune : CAddrMan → Int → List (Nat × CAddrInfo) → Option (CAddrMan × Int)
  | s, nLostUnk, [] => some (s, nLostUnk)
  | s, nLostUnk, (nId, info) :: rest =>
      if info.fInTried = false ∧ info.nRefCount = 0 then
        (s.delete nId).bind fun next => prune next (nLostUnk + 1) rest
      else prune s nLostUnk rest

def restore (s : CAddrMan) (nKey : Uint256) (file : PeersFile) : Option (CAddrMan × Int × Int) :=
  let usable := file.nVersion == 1 && file.bucketCount == ADDRMAN_NEW_BUCKET_COUNT
  let s :=
    { s.clear nKey with
      nKey := file.nKey
      nNew := file.nNew
      nTried := file.nTried }
  let s := { readAllNew usable s 0 file.infosNew with nIdCount := file.nNew.toNat }
  let (s, nLost) := readAllTried s 0 file.infosTried
  let s := readBuckets usable { s with nTried := s.nTried - nLost } file.buckets
  (prune s 0 s.infos).map fun (s, nLostUnk) => (s, nLost, nLostUnk)

def unserialize (s : CAddrMan) (nKey : Uint256) (bytes : List UInt8) :
    Except String (Option (CAddrMan × Int × Int) × List UInt8) := do
  let (file, rest) ← Format.peersFile.read bytes
  return (s.restore nKey file, rest)

end CAddrMan

end CryptoYen
