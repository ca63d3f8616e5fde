import Mathlib.Data.Finset.Max
import Mathlib.Data.Int.Interval
import Mathlib.Order.Interval.Finset.Nat
import CryptoYen.Library.Assoc

set_option autoImplicit false

namespace CryptoYen

abbrev CPubKey := Nat

structure CReserveKey where
  nIndex : Int
  vchPubKey : Option CPubKey
  deriving DecidableEq, Repr

def CReserveKey.unused : CReserveKey := ⟨-1, none⟩

inductive KeyEvent
  | handedOut (key : CPubKey)
  | kept (key : CPubKey)
  deriving DecidableEq, Repr

structure KeyPoolConfig where
  -- max(GetArg("-keypool", 1000), 0) as an unsigned int
  nKeyPoolArg : Nat
  fFileBacked : Bool

/-- The key pool of a wallet with the "pool" records of its database and the CReserveKeys that draw on
it. Nothing reads the history, which has the latest event first. -/
structure KeyPool where
  fLocked : Bool
  setKeyPool : Finset Int
  records : AList fun _ : Int => CPubKey
  nGenerated : Nat
  holders : Nat → CReserveKey
  history : List KeyEvent

namespace KeyPool

def empty : KeyPool := ⟨false, ∅, ∅, 0, fun _ => .unused, []⟩

def nEnd (setKeyPool : Finset Int) : Int :=
  match setKeyPool.max with
  | none => 1
  | some last => last + 1

def addKey (s : KeyPool) : KeyPool :=
  { s with
    records := s.records.insert (nEnd s.setKeyPool) s.nGenerated
    setKeyPool := insert (nEnd s.setKeyPool) s.setKeyPool
    nGenerated := s.nGenerated + 1 }

def fillPool (size : Nat) (s : KeyPool) : KeyPool := addKey^[size - s.setKeyPool.card] s

variable (cfg : KeyPoolConfig)

def poolSize (kpSize : Nat) : Nat := ((if 0 < kpSize then kpSize else cfg.nKeyPoolArg) + 1) % 2 ^ 32

def topUpKeyPool (s : KeyPool) (kpSize : Nat) : KeyPool × Bool :=
  if s.fLocked then (s, false) else (s.fillPool (poolSize cfg kpSize), true)

/-- The oldest key: the index is -1 when there is none left; without a key the read has failed and an
exception is thrown, with the index gone from the set. -/
def takeOldest (s : KeyPool) : KeyPool × Int × Option CPubKey :=
  match s.setKeyPool.min with
  | none => (s, -1, none)
  | some nIndex =>
      ({ s with setKeyPool := s.setKeyPool.erase nIndex }, nIndex, s.records.lookup nIndex)

def reserveKeyFromKeyPool (s : KeyPool) : KeyPool × Int × Option CPubKey :=
  (if s.fLocked then s else (s.topUpKeyPool cfg 0).1).takeOldest

def keepKey (s : KeyPool) (nIndex : Int) : KeyPool :=
  if cfg.fFileBacked then { s with records := s.records.erase nIndex } else s

def returnKey (s : KeyPool) (nIndex : Int) : KeyPool :=
  { s with setKeyPool := insert nIndex s.setKeyPool }

def setHolder (s : KeyPool) (holder : Nat) (key : CReserveKey) : KeyPool :=
  { s with holders := Function.update s.holders holder key }

def record (s : KeyPool) (event : CPubKey → KeyEvent) (key : Option CPubKey) : KeyPool :=
  match key with
  | none => s
  | some key => { s with history := event key :: s.history }

@[simp] theorem record_holders (s : KeyPool) (event : CPubKey → KeyEvent) (key : Option CPubKey) :
    (s.record event key).holders = s.holders := by
  cases key <;> rfl

@[simp] theorem record_setKeyPool (s : KeyPool) (event : CPubKey → KeyEvent)
    (key : Option CPubKey) : (s.record event key).setKeyPool = s.setKeyPool := by
  cases key <;> rfl

def getReservedKey (s : KeyPool) (holder : Nat) : KeyPool :=
  let key := s.holders holder
  if key.nIndex = -1 then
    let (reserved, nIndex, vchPubKey) := s.reserveKeyFromKeyPool cfg
    (reserved.setHolder holder ⟨nIndex, vchPubKey.or key.vchPubKey⟩).record .handedOut vchPubKey
  else s.record .handedOut key.vchPubKey

def keepReserved (s : KeyPool) (holder : Nat) : KeyPool :=
  let key := s.holders holder
  let kept := if key.nIndex = -1 then s
    else (s.keepKey cfg key.nIndex).record .kept key.vchPubKey
  kept.setHolder holder .unused

def returnReserved (s : KeyPool) (holder : Nat) : KeyPool :=
  let key := s.holders holder
  let returned := if key.nIndex = -1 then s else s.returnKey key.nIndex
  returned.setHolder holder .unused

end KeyPool

inductive KeyPoolOp
  | topUpKeyPool (kpSize : Nat)
  | getReservedKey (holder : Nat)
  | keepKey (holder : Nat)
  | returnKey (holder : Nat)
  | lock
  | unlock
  deriving DecidableEq, Repr

namespace KeyPool

def step (cfg : KeyPoolConfig) (s : KeyPool) : KeyPoolOp → Option KeyPool
  | .topUpKeyPool kpSize => some (s.topUpKeyPool cfg kpSize).1
  | .getReservedKey holder => some (s.getReservedKey cfg holder)
  | .keepKey holder => some (s.keepReserved cfg holder)
  | .returnKey holder => some (s.returnReserved holder)
  | .lock => some { s with fLocked := true }
  | .unlock => some { s with fLocked := false }

theorem nEnd_of_max {setKeyPool : Finset Int} {last : Int} (highest : setKeyPool.max = last) :
    nEnd setKeyPool = last + 1 := by
  rw [nEnd, highest]

theorem lt_nEnd (setKeyPool : Finset Int) {nIndex : Int} (member : nIndex ∈ setKeyPool) :
    nIndex < nEnd setKeyPool := by
  obtain ⟨last, highest⟩ := Finset.max_of_mem member
  have below := Finset.le_max_of_eq member highest
  have next := nEnd_of_max highest
  omega

theorem nEnd_notMem (setKeyPool : Finset Int) : nEnd setKeyPool ∉ setKeyPool :=
  fun member => lt_irrefl _ (lt_nEnd setKeyPool member)

theorem nEnd_insert (setKeyPool : Finset Int) :
    nEnd (insert (nEnd setKeyPool) setKeyPool) = nEnd setKeyPool + 1 := by
  obtain ⟨last, highest⟩ := Finset.max_of_mem (Finset.mem_insert_self (nEnd setKeyPool) setKeyPool)
  have above := Finset.le_max_of_eq (Finset.mem_insert_self _ _) highest
  rw [nEnd_of_max highest]
  cases Finset.mem_insert.mp (Finset.mem_of_max highest) with
  | inl same => rw [same]
  | inr member =>
      have below := lt_nEnd setKeyPool member
      omega

theorem nEnd_positive (setKeyPool : Finset Int) (positive : ∀ nIndex ∈ setKeyPool, 1 ≤ nIndex) :
    1 ≤ nEnd setKeyPool := by
  cases highest : setKeyPool.max with
  | bot =>
      rw [nEnd, highest]
  | coe last =>
      have low := positive last (Finset.mem_of_max highest)
      rw [nEnd_of_max highest]
      omega

theorem addKeys_nEnd (s : KeyPool) (n : Nat) :
    nEnd (addKey^[n] s).setKeyPool = nEnd s.setKeyPool + n := by
  induction n with
  | zero => simp
  | succ n ih =>
      rw [Function.iterate_succ_apply', addKey, nEnd_insert, ih]
      omega

theorem addKeys_holders (s : KeyPool) (n : Nat) : (addKey^[n] s).holders = s.holders := by
  induction n with
  | zero => rfl
  | succ n ih => rw [Function.iterate_succ_apply', addKey, ih]

theorem mem_addKeys (s : KeyPool) (n : Nat) (nIndex : Int) :
    nIndex ∈ (addKey^[n] s).setKeyPool ↔
      nIndex ∈ s.setKeyPool ∨ (nEnd s.setKeyPool ≤ nIndex ∧ nIndex < nEnd s.setKeyPool + n) := by
  induction n with
  | zero =>
      refine ⟨.inl, fun either => either.resolve_right fun inside => ?_⟩
      simp only [Nat.cast_zero] at inside
      omega
  | succ n ih =>
      have last := addKeys_nEnd s n
      rw [Function.iterate_succ_apply', addKey, Finset.mem_insert, ih, last]
      constructor
      next =>
        intro either
        rcases either with new | before | inside
        · exact .inr (by omega)
        · exact .inl before
        · exact .inr (by omega)
      next =>
        intro either
        rcases either with before | inside
        · exact .inr (.inl before)
        by_cases new : nIndex = nEnd s.setKeyPool + n
        · exact .inl new
        · exact .inr (.inr (by omega))

theorem fillPool_loop (size : Nat) (s : KeyPool) :
    s.fillPool size = if s.setKeyPool.card < size then s.addKey.fillPool size else s := by
  have grown : s.addKey.setKeyPool.card = s.setKeyPool.card + 1 :=
    Finset.card_insert_of_notMem (nEnd_notMem s.setKeyPool)
  split
  next short =>
    have rounds : size - s.setKeyPool.card = (size - s.addKey.setKeyPool.card) + 1 := by omega
    rw [fillPool, rounds, Function.iterate_succ_apply, fillPool]
  next full =>
    have rounds : size - s.setKeyPool.card = 0 := by omega
    rw [fillPool, rounds, Function.iterate_zero_apply]

end KeyPool

end CryptoYen
