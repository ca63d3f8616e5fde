import Mathlib.Data.List.DropRight
import CryptoYen.Primitives.Transaction

set_option autoImplicit false

namespace CryptoYen

structure CCoins where
  fCoinBase : Bool
  fCoinStake : Bool
  vout : List CTxOut
  nHeight : Nat
  nVersion : Int
  deriving DecidableEq, Repr

structure CTxInUndo where
  txout : CTxOut
  fCoinBase : Bool
  fCoinStake : Bool
  nHeight : Nat
  nVersion : Int
  deriving DecidableEq, Repr

abbrev CTxUndo := List CTxInUndo

namespace CCoins

def empty : CCoins := ⟨false, false, [], 0, 0⟩

def clear (_ : CCoins) : CCoins := empty

def cleanup (coins : CCoins) : CCoins :=
  { coins with vout := coins.vout.rdropWhile CTxOut.isNull }

def clearUnspendable (coins : CCoins) : CCoins :=
  cleanup { coins with
    vout := coins.vout.map fun txout =>
      if CScript.isUnspendable txout.scriptPubKey then CTxOut.null else txout }

def fromTx (tx : CTransaction) (nHeight : Nat) : CCoins :=
  clearUnspendable
    { fCoinBase := tx.isCoinBase
      fCoinStake := tx.isCoinStake
      vout := tx.vout
      nHeight := nHeight
      nVersion := tx.nVersion }

def isAvailable (coins : CCoins) (nPos : Nat) : Bool :=
  match coins.vout[nPos]? with
  | some txout => !txout.isNull
  | none => false

def isPruned (coins : CCoins) : Bool := coins.vout.all CTxOut.isNull

-- operator==
def equal (a b : CCoins) : Bool := (a.isPruned && b.isPruned) || a == b

def spend (coins : CCoins) (out : COutPoint) : Option (CCoins × CTxInUndo) :=
  match coins.vout[out.n]? with
  | none => none
  | some txout =>
      if txout.isNull then none
      else
        let spent := cleanup { coins with vout := coins.vout.set out.n CTxOut.null }
        some (spent,
          if spent.vout.isEmpty then
            ⟨txout, coins.fCoinBase, coins.fCoinStake, coins.nHeight, coins.nVersion⟩
          else ⟨txout, false, false, 0, 0⟩)

def coin (coins : CCoins) (nPos : Nat) : Option CTxOut :=
  coins.vout[nPos]?.filter fun txout => !txout.isNull

def Clean (coins : CCoins) : Prop := coins.cleanup = coins

@[simp] theorem cleanup_fCoinBase (coins : CCoins) :
    coins.cleanup.fCoinBase = coins.fCoinBase := rfl
@[simp] theorem cleanup_fCoinStake (coins : CCoins) :
    coins.cleanup.fCoinStake = coins.fCoinStake := rfl
@[simp] theorem cleanup_nHeight (coins : CCoins) : coins.cleanup.nHeight = coins.nHeight := rfl
@[simp] theorem cleanup_nVersion (coins : CCoins) : coins.cleanup.nVersion = coins.nVersion := rfl

theorem cleanup_clean (coins : CCoins) : coins.cleanup.Clean := by
  simp [Clean, cleanup, List.rdropWhile_idempotent]

theorem isAvailable_iff_coin (coins : CCoins) (nPos : Nat) :
    coins.isAvailable nPos = (coins.coin nPos).isSome := by
  unfold isAvailable coin
  cases coins.vout[nPos]? with
  | none => rfl
  | some txout => cases null : txout.isNull <;> simp [Option.filter, null]

private theorem filter_rdropWhile (vout : List CTxOut) (nPos : Nat) :
    (vout.rdropWhile CTxOut.isNull)[nPos]?.filter (fun txout => !txout.isNull) =
      vout[nPos]?.filter fun txout => !txout.isNull := by
  induction vout using List.reverseRecOn with
  | nil => rfl
  | append_singleton vout last ih =>
      by_cases null : last.isNull = true
      · rw [List.rdropWhile_concat_pos _ _ _ null, ih]
        by_cases inside : nPos < vout.length
        · rw [List.getElem?_append_left inside]
        · rw [List.getElem?_append_right (by omega), List.getElem?_eq_none (by omega)]
          cases nPos - vout.length with
          | zero => simp [Option.filter, null]
          | succ => simp
      · rw [List.rdropWhile_concat_neg _ _ _ null]

@[simp] theorem cleanup_coin (coins : CCoins) (nPos : Nat) :
    coins.cleanup.coin nPos = coins.coin nPos :=
  filter_rdropWhile coins.vout nPos

@[simp] theorem cleanup_isAvailable (coins : CCoins) (nPos : Nat) :
    coins.cleanup.isAvailable nPos = coins.isAvailable nPos := by
  simp [isAvailable_iff_coin]

theorem isPruned_iff_coin (coins : CCoins) :
    coins.isPruned = true ↔ ∀ nPos, coins.coin nPos = none := by
  simp only [isPruned, List.all_eq_true, coin, Option.filter_eq_none_iff, Bool.not_eq_true',
    Bool.not_eq_false]
  constructor
  · intro nulls nPos txout found
    exact nulls txout (List.mem_of_getElem? found)
  · intro nulls txout present
    obtain ⟨nPos, found⟩ := List.getElem?_of_mem present
    exact nulls nPos txout found

theorem isPruned_cleanup (coins : CCoins) : coins.cleanup.isPruned = coins.isPruned := by
  rw [Bool.eq_iff_iff, isPruned_iff_coin, isPruned_iff_coin]
  simp

theorem Clean.isPruned_iff {coins : CCoins} (clean : coins.Clean) :
    coins.isPruned = true ↔ coins.vout = [] := by
  have fixed : coins.vout.rdropWhile CTxOut.isNull = coins.vout := congrArg vout clean
  rw [← fixed, List.rdropWhile_eq_nil_iff, isPruned, List.all_eq_true]

theorem empty_clean : empty.Clean := by
  simp [Clean, cleanup, empty]

theorem not_isPruned_of_coin (coins : CCoins) (nPos : Nat) (txout : CTxOut)
    (present : coins.coin nPos = some txout) : coins.isPruned = false := by
  by_contra pruned
  have gone := (isPruned_iff_coin coins).mp (by simpa using pruned) nPos
  rw [gone] at present
  cases present

-- One lemma says all that Spend does.
theorem spend_some (coins : CCoins) (out : COutPoint) (spent : CCoins) (undo : CTxInUndo)
    (succeeds : coins.spend out = some (spent, undo)) :
    coins.coin out.n = some undo.txout ∧
      spent = cleanup { coins with vout := coins.vout.set out.n CTxOut.null } ∧
      undo = if spent.vout.isEmpty then
          ⟨undo.txout, coins.fCoinBase, coins.fCoinStake, coins.nHeight, coins.nVersion⟩
        else ⟨undo.txout, false, false, 0, 0⟩ := by
  unfold spend at succeeds
  split at succeeds
  next => cases succeeds
  next txout found =>
    split at succeeds
    next => cases succeeds
    next alive =>
      cases succeeds
      refine ⟨?_, rfl, ?_⟩
      · split <;> simp [coin, found, Option.filter, alive]
      · split <;> rfl

theorem spend_isSome (coins : CCoins) (out : COutPoint) :
    (coins.spend out).isSome = coins.isAvailable out.n := by
  unfold spend isAvailable
  cases coins.vout[out.n]? with
  | none => rfl
  | some txout =>
      by_cases null : txout.isNull = true
      · simp [null]
      · simp [null]

theorem coin_set_null (coins : CCoins) (out nPos : Nat) :
    coin { coins with vout := coins.vout.set out CTxOut.null } nPos =
      if nPos = out then none else coins.coin nPos := by
  simp only [coin, List.getElem?_set]
  by_cases same : out = nPos
  · subst same
    by_cases inside : out < coins.vout.length <;> simp [inside, Option.filter]
  · simp [same, Ne.symm same]

theorem spend_coin (coins : CCoins) (out : COutPoint) (spent : CCoins) (undo : CTxInUndo)
    (succeeds : coins.spend out = some (spent, undo)) (nPos : Nat) :
    spent.coin nPos = if nPos = out.n then none else coins.coin nPos := by
  obtain ⟨_, rfl, _⟩ := spend_some coins out spent undo succeeds
  rw [cleanup_coin, coin_set_null]

theorem spend_clean (coins : CCoins) (out : COutPoint) (spent : CCoins) (undo : CTxInUndo)
    (succeeds : coins.spend out = some (spent, undo)) : spent.Clean := by
  obtain ⟨_, rfl, _⟩ := spend_some coins out spent undo succeeds
  exact cleanup_clean _

theorem fromTx_clean (tx : CTransaction) (nHeight : Nat) : (fromTx tx nHeight).Clean :=
  cleanup_clean _

theorem equal_iff (a b : CCoins) :
    equal a b = true ↔ (a.isPruned = true ∧ b.isPruned = true) ∨ a = b := by
  simp [equal]

theorem equal_refl (a : CCoins) : equal a a = true := by
  simp [equal]

end CCoins

/-- A record at rest: no spent output is left at the end of vout. -/
def CleanCoins : Type := { coins : CCoins // coins.Clean }

namespace CleanCoins

def empty : CleanCoins := ⟨CCoins.empty, CCoins.empty_clean⟩

def of (coins : CCoins) : CleanCoins := ⟨coins.cleanup, coins.cleanup_clean⟩

def isPruned (coins : CleanCoins) : Bool := coins.val.isPruned

@[simp] theorem of_isPruned (coins : CCoins) : (of coins).isPruned = coins.isPruned :=
  coins.isPruned_cleanup

theorem isPruned_eq_isEmpty (coins : CleanCoins) : coins.isPruned = coins.val.vout.isEmpty := by
  rw [Bool.eq_iff_iff, List.isEmpty_iff]
  exact coins.property.isPruned_iff

end CleanCoins

end CryptoYen
