import Mathlib.Data.List.AList
import CryptoYen.Coins.View
import CryptoYen.Library.Machine
import CryptoYen.Library.WriteBack

set_option autoImplicit false

namespace CryptoYen

-- DIRTY: the entry may differ from the parent's version. FRESH: the parent has no entry, or a
-- pruned one.
abbrev CCoinsCacheEntry := WriteBack.Slot CleanCoins

abbrev CCoinsMap := AList fun _ : Uint256 => CCoinsCacheEntry

structure CCoinsViewCache where
  cacheCoins : CCoinsMap
  hashBlock : Uint256

structure CoinsEdit where
  run : CCoins → CCoins

namespace CoinsEdit

-- Nothing that is left in a pruned record matters: like operator== it takes all of them for equal.
def Respects (edit : CoinsEdit) : Prop :=
  ∀ a b, a.isPruned = true → b.isPruned = true → (edit.run a).equal (edit.run b) = true

def create (tx : CTransaction) (nHeight : Nat) : CoinsEdit := ⟨fun _ => CCoins.fromTx tx nHeight⟩

def change (edit : CCoins → CCoins) : CoinsEdit :=
  ⟨fun coins => if coins.isPruned then coins else edit coins⟩

def spend (out : COutPoint) : CoinsEdit :=
  ⟨fun coins => ((coins.spend out).map Prod.fst).getD coins⟩

def prune : CoinsEdit := ⟨CCoins.clear⟩

theorem create_respects (tx : CTransaction) (nHeight : Nat) : (create tx nHeight).Respects :=
  fun _ _ _ _ => CCoins.equal_refl _

theorem change_respects (edit : CCoins → CCoins) : (change edit).Respects := by
  intro a b first second
  simp [change, first, second, CCoins.equal]

theorem spend_respects (out : COutPoint) : (spend out).Respects := by
  intro a b first second
  have fails (coins : CCoins) (pruned : coins.isPruned = true) : coins.spend out = none := by
    rw [← Option.not_isSome_iff_eq_none, CCoins.spend_isSome, CCoins.isAvailable_iff_coin,
      (CCoins.isPruned_iff_coin coins).mp pruned]
    simp
  simp [spend, fails a first, fails b second, CCoins.equal, first, second]

theorem prune_respects : prune.Respects := fun _ _ _ _ => CCoins.equal_refl _

def settled (edit : CoinsEdit) (coins : CleanCoins) : CleanCoins :=
  CleanCoins.of (edit.run coins.val)

end CoinsEdit

structure CacheStack where
  caches : List CCoinsViewCache
  db : CCoinsView

namespace CCoinsViewCache

def empty : CCoinsViewCache := ⟨∅, 0⟩

def put (cache : CCoinsViewCache) (txid : Uint256) (entry : CCoinsCacheEntry) : CCoinsViewCache :=
  { cache with cacheCoins := cache.cacheCoins.insert txid entry }

def fetchCoins (db : CCoinsView) (txid : Uint256) :
    List CCoinsViewCache → List CCoinsViewCache × Option CleanCoins
  | [] => ([], db.coins txid)
  | cache :: base =>
      match cache.cacheCoins.lookup txid with
      | some entry => (cache :: base, some entry.value)
      | none =>
          match fetchCoins db txid base with
          | (base, none) => (cache :: base, none)
          | (base, some coins) =>
              (cache.put txid ⟨coins, false, coins.isPruned⟩ :: base, some coins)

def entryFor (db : CCoinsView) (cache : CCoinsViewCache) (base : List CCoinsViewCache)
    (txid : Uint256) : CCoinsCacheEntry × List CCoinsViewCache :=
  match cache.cacheCoins.lookup txid with
  | some entry => (entry, base)
  | none =>
      match fetchCoins db txid base with
      | (base, some coins) => (⟨coins, false, coins.isPruned⟩, base)
      | (base, none) => (⟨CleanCoins.empty, false, true⟩, base)

def modifyCoins (db : CCoinsView) (txid : Uint256) (edit : CoinsEdit) :
    List CCoinsViewCache → List CCoinsViewCache
  | [] => []
  | cache :: base =>
      let (entry, base) := entryFor db cache base txid
      let coins := edit.settled entry.value
      if entry.fresh && coins.isPruned then
        { cache with cacheCoins := cache.cacheCoins.erase txid } :: base
      else cache.put txid ⟨coins, true, entry.fresh⟩ :: base

-- One entry of BatchWrite on a cache; none when the assertion on FRESH fails.
def writeEntry (cacheCoins : CCoinsMap) (txid : Uint256) (entry : CCoinsCacheEntry) :
    Option CCoinsMap :=
  if !entry.dirty then some cacheCoins
  else
    match cacheCoins.lookup txid with
    | none =>
        if entry.value.isPruned then some cacheCoins
        else if entry.fresh then some (cacheCoins.insert txid ⟨entry.value, true, true⟩)
        else none
    | some itUs =>
        if itUs.fresh && entry.value.isPruned then some (cacheCoins.erase txid)
        else some (cacheCoins.insert txid ⟨entry.value, true, itUs.fresh⟩)

def writeEntries (cacheCoins : CCoinsMap) : List (Sigma fun _ : Uint256 => CCoinsCacheEntry) →
    Option CCoinsMap
  | [] => some cacheCoins
  | ⟨txid, entry⟩ :: rest => do
      let cacheCoins ← writeEntry cacheCoins txid entry
      writeEntries cacheCoins rest

def batchWrite (cache : CCoinsViewCache) (mapCoins : CCoinsMap) (hashBlock : Uint256) :
    Option CCoinsViewCache :=
  (writeEntries cache.cacheCoins mapCoins.entries).map fun cacheCoins => ⟨cacheCoins, hashBlock⟩

end CCoinsViewCache

def dbEntry (coins : Uint256 → Option CleanCoins) (txid : Uint256) (entry : CCoinsCacheEntry) :
    Uint256 → Option CleanCoins :=
  if !entry.dirty then coins
  else Function.update coins txid (if entry.value.isPruned then none else some entry.value)

def dbBatchWrite (db : CCoinsView) (mapCoins : CCoinsMap) (hashBlock : Uint256) : CCoinsView where
  coins := mapCoins.entries.foldl (fun coins item => dbEntry coins item.1 item.2) db.coins
  hashBlock := if hashBlock = 0 then db.hashBlock else hashBlock

namespace CacheStack

open CCoinsViewCache

def flushCaches (db : CCoinsView) :
    Nat → List CCoinsViewCache → Option (List CCoinsViewCache × CCoinsView)
  | _, [] => some ([], db)
  | 0, [cache] =>
      some ([{ cache with cacheCoins := ∅ }], dbBatchWrite db cache.cacheCoins cache.hashBlock)
  | 0, cache :: parent :: base =>
      (parent.batchWrite cache.cacheCoins cache.hashBlock).map fun parent =>
        ({ cache with cacheCoins := ∅ } :: parent :: base, db)
  | level + 1, cache :: base =>
      (flushCaches db level base).map fun (base, db) => (cache :: base, db)

variable (stack : CacheStack)

def getCoins (txid : Uint256) : CacheStack × Option CleanCoins :=
  let (caches, found) := fetchCoins stack.db txid stack.caches
  ({ stack with caches := caches }, found)

def accessCoins (txid : Uint256) : CacheStack × Option CleanCoins := stack.getCoins txid

def haveCoins (txid : Uint256) : CacheStack × Bool :=
  let (caches, found) := fetchCoins stack.db txid stack.caches
  ({ stack with caches := caches }, found.any fun coins => !coins.val.vout.isEmpty)

def modify (txid : Uint256) (edit : CoinsEdit) : CacheStack :=
  { stack with caches := modifyCoins stack.db txid edit stack.caches }

def setBestBlock (hashBlock : Uint256) : CacheStack :=
  { stack with
    caches := stack.caches.modifyHead fun cache => { cache with hashBlock := hashBlock } }

def flush (level : Nat) : Option CacheStack :=
  (flushCaches stack.db level stack.caches).map fun (caches, db) => ⟨caches, db⟩

def start (db : CCoinsView) (depth : Nat) : CacheStack := ⟨List.replicate depth empty, db⟩

end CacheStack

inductive CacheOp
  | getCoins (txid : Uint256)
  | haveCoins (txid : Uint256)
  | accessCoins (txid : Uint256)
  | modifyCoins (txid : Uint256) (edit : CoinsEdit)
  | setBestBlock (hashBlock : Uint256)
  | flush (level : Nat)
  | push
  | drop

def CacheStack.step (stack : CacheStack) : CacheOp → Option CacheStack
  | .getCoins txid => some (stack.getCoins txid).1
  | .haveCoins txid => some (stack.haveCoins txid).1
  | .accessCoins txid => some (stack.accessCoins txid).1
  | .modifyCoins txid edit => some (stack.modify txid edit)
  | .setBestBlock hashBlock => some (stack.setBestBlock hashBlock)
  | .flush level => stack.flush level
  | .push => some { stack with caches := CCoinsViewCache.empty :: stack.caches }
  | .drop => some { stack with caches := stack.caches.tail }

/-- A parent changes only through its child's flush, so the caches above a flushed one are empty. -/
def CacheOp.Allowed (stack : CacheStack) : CacheOp → Prop
  | .modifyCoins _ _ => stack.caches ≠ []
  | .flush level =>
      level < stack.caches.length ∧ ∀ cache ∈ stack.caches.take level, cache.cacheCoins = ∅
  | .drop => stack.caches ≠ []
  | _ => True

instance (cacheCoins : CCoinsMap) : Decidable (cacheCoins = ∅) :=
  decidable_of_iff (cacheCoins.entries.isEmpty = true) (by
    rw [List.isEmpty_iff]
    exact ⟨fun none => AList.ext none, fun none => congrArg AList.entries none⟩)

instance (stack : CacheStack) : ∀ op, Decidable (CacheOp.Allowed stack op)
  | .modifyCoins _ _ | .drop => inferInstanceAs (Decidable (stack.caches ≠ []))
  | .flush level =>
      inferInstanceAs (Decidable (level < _ ∧ ∀ cache ∈ stack.caches.take level, _))
  | .getCoins _ | .haveCoins _ | .accessCoins _ | .setBestBlock _ | .push =>
      inferInstanceAs (Decidable True)

def CacheOp.Respects : CacheOp → Prop
  | .modifyCoins _ edit => edit.Respects
  | _ => True

end CryptoYen
