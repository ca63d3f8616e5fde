import Mathlib.Data.Prod.Lex
import Mathlib.Order.Lex
import CryptoYen.Consensus.Work
import CryptoYen.Library.Ranking

set_option autoImplicit false

namespace CryptoYen

def BLOCK_VALID_TREE : Nat := 2
def BLOCK_VALID_TRANSACTIONS : Nat := 3
def BLOCK_VALID_SCRIPTS : Nat := 5

structure BlockStatus where
  valid : Nat
  haveData : Bool
  haveUndo : Bool
  failedValid : Bool
  failedChild : Bool
  deriving DecidableEq, Repr

namespace BlockStatus

def unknown : BlockStatus := ⟨0, false, false, false, false⟩

def failed (status : BlockStatus) : Bool := status.failedValid || status.failedChild

def isValid (status : BlockStatus) (nUpTo : Nat) : Bool :=
  !status.failed && nUpTo ≤ status.valid

def raiseValidity (status : BlockStatus) (nUpTo : Nat) : BlockStatus :=
  if status.failed then status
  else if status.valid < nUpTo then { status with valid := nUpTo }
  else status

section raising

variable (status : BlockStatus) (nUpTo : Nat)

@[simp] theorem raiseValidity_haveData :
    (status.raiseValidity nUpTo).haveData = status.haveData := by
  unfold raiseValidity
  split
  · rfl
  · split <;> rfl

@[simp] theorem raiseValidity_haveUndo :
    (status.raiseValidity nUpTo).haveUndo = status.haveUndo := by
  unfold raiseValidity
  split
  · rfl
  · split <;> rfl

@[simp] theorem raiseValidity_failedValid :
    (status.raiseValidity nUpTo).failedValid = status.failedValid := by
  unfold raiseValidity
  split
  · rfl
  · split <;> rfl

@[simp] theorem raiseValidity_failedChild :
    (status.raiseValidity nUpTo).failedChild = status.failedChild := by
  unfold raiseValidity
  split
  · rfl
  · split <;> rfl

@[simp] theorem raiseValidity_failed :
    (status.raiseValidity nUpTo).failed = status.failed := by
  simp [failed]

theorem le_raiseValidity : status.valid ≤ (status.raiseValidity nUpTo).valid := by
  unfold raiseValidity
  split
  · exact le_refl _
  · split
    · exact le_of_lt ‹_›
    · exact le_refl _

theorem raiseValidity_reaches (sound : status.failed = false) :
    nUpTo ≤ (status.raiseValidity nUpTo).valid := by
  unfold raiseValidity
  rw [sound]
  simp only [Bool.false_eq_true, ↓reduceIte]
  split
  · exact le_refl _
  · omega

end raising

end BlockStatus

-- CBlockIndex*: the address of an entry.
abbrev BlockPtr := Nat

structure TreeEntry where
  phashBlock : Uint256
  pprev : Option BlockPtr
  nHeight : Nat
  nChainWork : Uint256
  nTx : Nat
  nChainTx : Nat
  nSequenceId : Nat
  nStatus : BlockStatus
  deriving DecidableEq, Repr

namespace TreeEntry

def null : TreeEntry := ⟨0, none, 0, 0, 0, 0, 0, .unknown⟩

-- Most work last, then the one received first, then the one at the lower address.
def workComparator (a b : TreeEntry) (pa pb : Nat) : Bool :=
  if b.nChainWork < a.nChainWork then false
  else if a.nChainWork < b.nChainWork then true
  else if a.nSequenceId < b.nSequenceId then false
  else if b.nSequenceId < a.nSequenceId then true
  else if pa < pb then false
  else decide (pb < pa)

abbrev Rank := ℕ ×ₗ (ℕᵒᵈ ×ₗ ℕᵒᵈ)

def rank (entry : TreeEntry) (p : Nat) : Rank :=
  toLex (entry.nChainWork.toNat, toLex (OrderDual.toDual entry.nSequenceId, OrderDual.toDual p))

theorem workComparator_iff (a b : TreeEntry) (pa pb : Nat) :
    a.workComparator b pa pb = true ↔ a.rank pa < b.rank pb := by
  simp only [workComparator, rank, Prod.Lex.toLex_lt_toLex, OrderDual.toDual_lt_toDual,
    OrderDual.toDual_inj, BitVec.lt_def]
  repeat' split
  all_goals simp only [Bool.false_eq_true, false_iff, true_iff, decide_eq_true_eq]
  all_goals omega

theorem work_lt_of_later (a b : TreeEntry) (pa pb : Nat) (behind : a.rank pa ≤ b.rank pb)
    (later : a.nSequenceId < b.nSequenceId) : a.nChainWork < b.nChainWork := by
  simp only [rank, Prod.Lex.toLex_le_toLex, OrderDual.toDual_lt_toDual,
    OrderDual.toDual_inj] at behind
  rw [BitVec.lt_def]
  omega

theorem rank_lt_of_work (a b : TreeEntry) (pa pb : Nat) (more : a.nChainWork < b.nChainWork) :
    a.rank pa < b.rank pb := by
  rw [BitVec.lt_def] at more
  simp only [rank, Prod.Lex.toLex_lt_toLex]
  exact Or.inl more

theorem eq_of_rank (a b : TreeEntry) (pa pb : Nat) (same : a.rank pa = b.rank pb) : pa = pb := by
  simp only [rank, toLex_inj, Prod.mk.injEq, OrderDual.toDual_inj] at same
  exact same.2.2

end TreeEntry

def getBlockProof (nBits : BitVec 32) : Uint256 :=
  let compact := setCompact nBits
  if compact.fNegative || compact.fOverflow || compact.bnTarget == 0 then 0
  else ~~~compact.bnTarget / (compact.bnTarget + 1) + 1

end CryptoYen
