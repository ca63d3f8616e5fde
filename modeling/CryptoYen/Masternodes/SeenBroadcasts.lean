import CryptoYen.Library.Assoc
import CryptoYen.Masternodes.Elections

set_option autoImplicit false

namespace CryptoYen

def MASTERNODE_REMOVAL_SECONDS : Int := 130 * 60

structure CMasternodeBroadcast where
  vin : CTxIn
  sigTime : Int
  pubKeyCollateralAddress : List UInt8
  lastPingSigTime : Int
  deriving DecidableEq, Repr

class BroadcastHasher where
  hash : Int → List UInt8 → Uint256

def CMasternodeBroadcast.getHash [BroadcastHasher] (mnb : CMasternodeBroadcast) : Uint256 :=
  BroadcastHasher.hash mnb.sigTime mnb.pubKeyCollateralAddress

abbrev SeenEntry := Uint256 × CMasternodeBroadcast

/-- mapSeenMasternodeBroadcast in the order of its keys; broadcasts are inserted under their own
hash, and the pings that replace lastPing do not enter it. -/
structure SeenBroadcasts [BroadcastHasher] where
  entries : List SeenEntry
  sorted : entries.Pairwise fun a b => a.1 < b.1
  keyed : ∀ entry ∈ entries, entry.1 = entry.2.getHash

abbrev SyncCounts := AList fun _ : Uint256 => Int

inductive ActiveState
  | preEnabled | enabled | expired | outpointSpent | remove | watchdogExpired | poseBan | vinSpent
  deriving DecidableEq, Repr

namespace SeenBroadcasts

variable [BroadcastHasher]

def filter (seen : SeenBroadcasts) (keep : SeenEntry → Bool) : SeenBroadcasts where
  entries := seen.entries.filter keep
  sorted := seen.sorted.sublist List.filter_sublist
  keyed entry member := seen.keyed entry (List.mem_of_mem_filter member)

def forget (seen : SeenBroadcasts) (sync : SyncCounts) (vin : CTxIn) :
    SeenBroadcasts × SyncCounts :=
  (seen.filter fun entry => entry.2.vin != vin,
    seen.entries.foldl
      (fun sync entry => if entry.2.vin == vin then sync.erase entry.1 else sync) sync)

-- The state of a masternode is what Check has left.
def outdated (activeState : CMasternode → ActiveState) (forceExpiredRemoval : Bool)
    (minProtocol : Int) (mn : CMasternode) : Bool :=
  activeState mn == .remove || activeState mn == .vinSpent ||
    (forceExpiredRemoval && activeState mn == .expired) || decide (mn.protocolVersion < minProtocol)

def removeInactive (isOutdated : CMasternode → Bool) (vMasternodes : List CMasternode)
    (seen : SeenBroadcasts) (sync : SyncCounts) : SeenBroadcasts × SyncCounts :=
  vMasternodes.foldl
    (fun maps mn => if isOutdated mn then maps.1.forget maps.2 mn.vin else maps) (seen, sync)

def hasExpired (now : Int) (entry : SeenEntry) : Bool :=
  decide (entry.2.lastPingSigTime < now - MASTERNODE_REMOVAL_SECONDS * 2)

/-- The loop over the expired broadcasts: the iterator has moved on when the hash is asked for.
none is the read at the end of the map. -/
def expire (now : Int) : List SeenEntry → SyncCounts → Option (List SeenEntry × SyncCounts)
  | [], sync => some ([], sync)
  | entry :: rest, sync =>
      if hasExpired now entry then
        match rest with
        | [] => none
        | next :: _ => expire now rest (sync.erase next.2.getHash)
      else (expire now rest sync).map fun (kept, sync) => (entry :: kept, sync)

def checkAndRemove (activeState : CMasternode → ActiveState) (forceExpiredRemoval : Bool)
    (minProtocol : Int) (vMasternodes : List CMasternode) (now : Int) (seen : SeenBroadcasts)
    (sync : SyncCounts) : Option (List SeenEntry × SyncCounts) :=
  let (seen, sync) :=
    removeInactive (outdated activeState forceExpiredRemoval minProtocol) vMasternodes seen sync
  expire now seen.entries sync

def erasedHashes (now : Int) : Bool → List SeenEntry → List Uint256
  | _, [] => []
  | behindExpired, entry :: rest =>
      (if behindExpired then [entry.2.getHash] else []) ++
        erasedHashes now (hasExpired now entry) rest

def expiredHashes (now : Int) (entries : List SeenEntry) : List Uint256 :=
  (entries.filter (hasExpired now)).map fun entry => entry.2.getHash

def endsExpired (now : Int) : Bool → List SeenEntry → Bool
  | behindExpired, [] => behindExpired
  | _, entry :: rest => endsExpired now (hasExpired now entry) rest

theorem expire_live (now : Int) (entry : SeenEntry) (rest : List SeenEntry) (sync : SyncCounts)
    (live : hasExpired now entry = false) :
    expire now (entry :: rest) sync =
      (expire now rest sync).map fun (kept, sync) => (entry :: kept, sync) := by
  cases rest <;> simp [expire, live]

theorem expire_eq (now : Int) (entries : List SeenEntry) (sync : SyncCounts) :
    expire now entries sync =
      if endsExpired now false entries then none
      else some (entries.filter fun entry => !hasExpired now entry,
        (erasedHashes now false entries).foldl (fun map hash => map.erase hash) sync) := by
  induction entries generalizing sync with
  | nil => rfl
  | cons entry rest ih =>
      cases expired : hasExpired now entry with
      | false =>
          rw [expire_live now entry rest sync expired, ih]
          simp only [endsExpired, erasedHashes, expired, List.filter_cons, Bool.not_false,
            Bool.false_eq_true, if_false, if_true, List.nil_append]
          split <;> rfl
      | true =>
          cases rest with
          | nil => simp [expire, endsExpired, expired]
          | cons next rest =>
              rw [expire, if_pos expired, ih]
              simp only [endsExpired, erasedHashes, expired, List.filter_cons, Bool.not_true,
                Bool.false_eq_true, if_false, if_true, List.nil_append, List.cons_append,
                List.foldl_cons]

/-- The loop ends, and it takes the hashes of the expired broadcasts out of the counts and no
others. -/
def Precise (now : Int) (entries : List SeenEntry) (sync : SyncCounts) : Prop :=
  ∃ final, expire now entries sync =
      some (entries.filter fun entry => !hasExpired now entry, final) ∧
    ∀ hash, final.lookup hash =
      if hash ∈ expiredHashes now entries then none else sync.lookup hash

-- Neither the last broadcast nor a counted one behind a live, or a live one behind an expired.
def Undisturbed (now : Int) (sync : SyncCounts) : Bool → List SeenEntry → Prop
  | behindExpired, [] => behindExpired = false
  | behindExpired, entry :: rest =>
      (hasExpired now entry ≠ behindExpired → sync.lookup entry.2.getHash = none) ∧
        Undisturbed now sync (hasExpired now entry) rest

theorem mem_hashes (now : Int) (behindExpired : Bool) (entries : List SeenEntry) (hash : Uint256)
    (among : hash ∈ erasedHashes now behindExpired entries ∨ hash ∈ expiredHashes now entries) :
    hash ∈ entries.map fun entry => entry.2.getHash := by
  induction entries generalizing behindExpired with
  | nil => simp [erasedHashes, expiredHashes] at among
  | cons entry rest ih =>
      rw [List.map_cons, List.mem_cons]
      rcases among with erased | expired
      · rw [erasedHashes, List.mem_append] at erased
        rcases erased with here | later
        · split at here
          next => exact .inl (List.mem_singleton.mp here)
          next => cases here
        · exact .inr (ih _ (.inl later))
      · rw [expiredHashes, List.filter_cons] at expired
        split at expired
        next =>
          rcases List.mem_cons.mp expired with here | later
          · exact .inl here
          · exact .inr (ih false (.inr later))
        next => exact .inr (ih false (.inr expired))

def Agrees (now : Int) (sync : SyncCounts) (behindExpired : Bool) (entries : List SeenEntry) :
    Prop :=
  ∀ hash, (hash ∈ erasedHashes now behindExpired entries ↔ hash ∈ expiredHashes now entries) ∨
    sync.lookup hash = none

theorem mem_erasedHashes_cons (now : Int) (behindExpired : Bool) (entry : SeenEntry)
    (rest : List SeenEntry) (hash : Uint256) :
    hash ∈ erasedHashes now behindExpired (entry :: rest) ↔
      behindExpired = true ∧ hash = entry.2.getHash ∨
        hash ∈ erasedHashes now (hasExpired now entry) rest := by
  rw [erasedHashes, List.mem_append]
  cases behindExpired <;> simp

theorem mem_expiredHashes_cons (now : Int) (entry : SeenEntry) (rest : List SeenEntry)
    (hash : Uint256) :
    hash ∈ expiredHashes now (entry :: rest) ↔
      hasExpired now entry = true ∧ hash = entry.2.getHash ∨ hash ∈ expiredHashes now rest := by
  rw [expiredHashes, List.filter_cons, expiredHashes]
  cases hasExpired now entry <;> simp

theorem agrees_cons (now : Int) (sync : SyncCounts) (behindExpired : Bool) (entry : SeenEntry)
    (rest : List SeenEntry)
    (fresh : entry.2.getHash ∉ rest.map fun other => other.2.getHash) :
    Agrees now sync behindExpired (entry :: rest) ↔
      (hasExpired now entry ≠ behindExpired → sync.lookup entry.2.getHash = none) ∧
        Agrees now sync (hasExpired now entry) rest := by
  have outside (hash : Uint256)
      (among : hash ∈ erasedHashes now (hasExpired now entry) rest ∨
        hash ∈ expiredHashes now rest) : hash ≠ entry.2.getHash := by
    intro same
    exact fresh (same ▸ mem_hashes now _ rest hash among)
  constructor
  · intro agrees
    constructor
    · intro differ
      apply (agrees entry.2.getHash).resolve_left
      intro same
      rw [mem_erasedHashes_cons, mem_expiredHashes_cons] at same
      have first : entry.2.getHash ∉ erasedHashes now (hasExpired now entry) rest :=
        fun among => outside _ (.inl among) rfl
      have second : entry.2.getHash ∉ expiredHashes now rest :=
        fun among => outside _ (.inr among) rfl
      simp only [first, second, and_true, or_false] at same
      exact differ (Bool.eq_iff_iff.mpr same.symm)
    · intro hash
      apply (agrees hash).imp_left
      intro same
      rw [mem_erasedHashes_cons, mem_expiredHashes_cons] at same
      constructor
      · intro among
        have apart := outside hash (.inl among)
        exact (same.mp (.inr among)).resolve_left fun here => apart here.2
      · intro among
        have apart := outside hash (.inr among)
        exact (same.mpr (.inr among)).resolve_left fun here => apart here.2
  · intro parts hash
    rw [mem_erasedHashes_cons, mem_expiredHashes_cons]
    by_cases here : hash = entry.2.getHash
    · by_cases differ : hasExpired now entry = behindExpired
      · rw [differ]
        apply (parts.2 hash).imp_left
        intro same
        rw [differ] at same
        exact or_congr Iff.rfl same
      · exact .inr (here ▸ parts.1 differ)
    · simp only [here, and_false, false_or]
      exact parts.2 hash

theorem agrees_iff (now : Int) (sync : SyncCounts) (behindExpired : Bool)
    (entries : List SeenEntry)
    (distinct : (entries.map fun entry => entry.2.getHash).Nodup) :
    Undisturbed now sync behindExpired entries ↔
      endsExpired now behindExpired entries = false ∧ Agrees now sync behindExpired entries := by
  induction entries generalizing behindExpired with
  | nil =>
      simp [Undisturbed, endsExpired, Agrees, erasedHashes, expiredHashes]
  | cons entry rest ih =>
      rw [List.map_cons, List.nodup_cons] at distinct
      rw [Undisturbed, ih _ distinct.2, agrees_cons now sync behindExpired entry rest distinct.1,
        endsExpired]
      tauto

theorem precise_iff_agrees (now : Int) (entries : List SeenEntry) (sync : SyncCounts) :
    Precise now entries sync ↔
      endsExpired now false entries = false ∧ Agrees now sync false entries := by
  have looked (hash : Uint256) :
      ((erasedHashes now false entries).foldl (fun map hash => map.erase hash) sync).lookup hash =
        if hash ∈ erasedHashes now false entries then none else sync.lookup hash :=
    Assoc.lookup_eraseAll _ sync hash
  have agree (hash : Uint256) :
      ((if hash ∈ erasedHashes now false entries then none else sync.lookup hash) =
          if hash ∈ expiredHashes now entries then none else sync.lookup hash) ↔
        ((hash ∈ erasedHashes now false entries ↔ hash ∈ expiredHashes now entries) ∨
          sync.lookup hash = none) := by
    by_cases erased : hash ∈ erasedHashes now false entries
    · by_cases expired : hash ∈ expiredHashes now entries
      · simp [erased, expired]
      · simp [erased, expired, eq_comm]
    · by_cases expired : hash ∈ expiredHashes now entries
      · simp [erased, expired]
      · simp [erased, expired]
  rw [Precise, expire_eq]
  cases ends : endsExpired now false entries with
  | true => simp
  | false =>
      simp only [Bool.false_eq_true, if_false, Option.some.injEq, Prod.mk.injEq, true_and,
        exists_eq_left', looked, agree]
      rfl

theorem distinct (seen : SeenBroadcasts) :
    (seen.entries.map fun entry => entry.2.getHash).Nodup := by
  have hashes : (seen.entries.map fun entry => entry.2.getHash) = seen.entries.map Prod.fst :=
    List.map_congr_left fun entry member => (seen.keyed entry member).symm
  rw [hashes]
  exact (List.pairwise_map.mpr seen.sorted).imp fun below => BitVec.ne_of_lt below

theorem precise_iff (now : Int) (seen : SeenBroadcasts) (sync : SyncCounts) :
    Precise now seen.entries sync ↔ Undisturbed now sync false seen.entries := by
  rw [precise_iff_agrees, agrees_iff now sync false seen.entries seen.distinct]

theorem undisturbed_of_live (now : Int) (sync : SyncCounts) (entries : List SeenEntry)
    (live : ∀ entry ∈ entries, hasExpired now entry = false) :
    Undisturbed now sync false entries := by
  induction entries with
  | nil => rfl
  | cons entry rest ih =>
      rw [List.forall_mem_cons] at live
      rw [Undisturbed, live.1]
      exact ⟨fun differ => absurd rfl differ, ih live.2⟩

theorem live_of_undisturbed (now : Int) (sync : SyncCounts) (entries : List SeenEntry)
    (counted : ∀ entry ∈ entries, sync.lookup entry.2.getHash ≠ none)
    (undisturbed : Undisturbed now sync false entries) :
    ∀ entry ∈ entries, hasExpired now entry = false := by
  induction entries with
  | nil => simp
  | cons entry rest ih =>
      rw [List.forall_mem_cons] at counted ⊢
      obtain ⟨here, later⟩ := undisturbed
      have live : hasExpired now entry = false := by
        by_contra differ
        exact counted.1 (here differ)
      rw [live] at later
      exact ⟨live, ih counted.2 later⟩

theorem always_precise_iff (now : Int) (seen : SeenBroadcasts) :
    (∀ sync, Precise now seen.entries sync) ↔
      ∀ entry ∈ seen.entries, hasExpired now entry = false := by
  constructor
  · intro always
    let hashes := seen.entries.map fun entry => entry.2.getHash
    let all : SyncCounts := hashes.foldl (fun map key => Assoc.insertNew map key 1) ∅
    apply live_of_undisturbed now all seen.entries
    · intro entry member
      have inside : entry.2.getHash ∈ hashes := List.mem_map.mpr ⟨entry, member, rfl⟩
      rw [Assoc.lookup_insertAll, if_pos inside]
      exact Option.some_ne_none _
    · exact (precise_iff now seen all).mp (always all)
  · intro live sync
    exact (precise_iff now seen sync).mpr (undisturbed_of_live now sync seen.entries live)

/-- The expired broadcasts that CheckAndRemove finds after the removals go with their own counts,
and it does not read past the map, exactly when none of them is the last one and no count belongs
to a broadcast on either edge of an expired stretch. -/
theorem checkAndRemove_precise_iff (activeState : CMasternode → ActiveState)
    (forceExpiredRemoval : Bool) (minProtocol : Int) (vMasternodes : List CMasternode) (now : Int)
    (seen : SeenBroadcasts) (sync : SyncCounts) :
    let maps :=
      removeInactive (outdated activeState forceExpiredRemoval minProtocol) vMasternodes seen sync
    ((∃ final,
        checkAndRemove activeState forceExpiredRemoval minProtocol vMasternodes now seen sync =
          some (maps.1.entries.filter fun entry => !hasExpired now entry, final) ∧
        ∀ hash, final.lookup hash =
          if hash ∈ expiredHashes now maps.1.entries then none else maps.2.lookup hash) ↔
      Undisturbed now maps.2 false maps.1.entries) ∧
    ((∀ counts, Precise now maps.1.entries counts) ↔
      ∀ entry ∈ maps.1.entries, hasExpired now entry = false) :=
  ⟨precise_iff now _ _, always_precise_iff now _⟩

end SeenBroadcasts

@[reducible] def sigTimeHasher : BroadcastHasher := ⟨fun sigTime _ => BitVec.ofInt 256 sigTime⟩

def seenBroadcast (sigTime lastPingSigTime : Int) : CMasternodeBroadcast where
  vin := ⟨⟨BitVec.ofInt 256 sigTime, 0⟩, [], 0xffffffff⟩
  sigTime := sigTime
  pubKeyCollateralAddress := []
  lastPingSigTime := lastPingSigTime

def staleEntry : SeenEntry := (1, seenBroadcast 1 100000)
def freshEntry : SeenEntry := (2, seenBroadcast 2 200000)

def staleSeen : @SeenBroadcasts sigTimeHasher :=
  @SeenBroadcasts.mk sigTimeHasher [staleEntry, freshEntry] (by decide) (by decide)

def onlyStaleSeen : @SeenBroadcasts sigTimeHasher :=
  @SeenBroadcasts.mk sigTimeHasher [staleEntry] (by decide) (by decide)

def bothCounted : SyncCounts := (AList.insert 1 1 ∅ : SyncCounts).insert 2 1

def onlyFirstCounted : SyncCounts := bothCounted.erase 2

def checkSeen (seen : @SeenBroadcasts sigTimeHasher) (sync : SyncCounts) :
    Option (List SeenEntry × SyncCounts) :=
  @SeenBroadcasts.checkAndRemove sigTimeHasher (fun _ => .enabled) false 0 [] 200000 seen sync

-- The count of the live broadcast goes, the one of the expired stays; without a live broadcast
-- behind it the loop reads past the map.
theorem checkAndRemove_takes_next :
    checkSeen staleSeen bothCounted = some ([freshEntry], onlyFirstCounted) ∧
      onlyFirstCounted.lookup 1 = some 1 ∧ bothCounted.lookup 2 = some 1 ∧
      onlyFirstCounted.lookup 2 = none ∧
      ¬ @SeenBroadcasts.Precise sigTimeHasher 200000 [staleEntry, freshEntry] bothCounted ∧
      checkSeen onlyStaleSeen ∅ = none := by
  have loop : @SeenBroadcasts.expire sigTimeHasher 200000 [staleEntry, freshEntry] bothCounted =
      some ([freshEntry], onlyFirstCounted) := rfl
  refine ⟨loop, by decide, by decide, by decide, ?_, rfl⟩
  intro precise
  obtain ⟨final, ran, looked⟩ := precise
  have same : onlyFirstCounted = final := by
    rw [loop, Option.some.injEq, Prod.mk.injEq] at ran
    exact ran.2
  have expired := looked 1
  rw [← same] at expired
  revert expired
  decide

end CryptoYen
