import Mathlib.Algebra.Ring.Int.Defs
import Mathlib.Algebra.Ring.Nat
import Mathlib.Data.List.Basic

set_option autoImplicit false

namespace CryptoYen

abbrev Uint256 := BitVec 256
abbrev CScript := List UInt8

-- Amounts (CAmount) are Int: the code keeps them far inside int64_t or tests the boundary. The
-- wallet does neither, and its sums wrap (Wallet.asAmount).
def COIN : Int := 100000000
def CENT : Int := 1000000

structure COutPoint where
  hash : Uint256
  n : Nat
  deriving DecidableEq, Repr

namespace COutPoint

def null : COutPoint := ⟨0, 0xffffffff⟩

def isNull (out : COutPoint) : Bool := out.hash == 0 && out.n == 0xffffffff

end COutPoint

structure CTxIn where
  prevout : COutPoint
  scriptSig : CScript
  nSequence : Nat
  deriving DecidableEq, Repr

namespace CTxIn

def isFinal (txin : CTxIn) : Bool := txin.nSequence == 0xffffffff

end CTxIn

structure CTxOut where
  nValue : Int
  scriptPubKey : CScript
  deriving DecidableEq, Repr

namespace CTxOut

def null : CTxOut := ⟨-1, []⟩
def empty : CTxOut := ⟨0, []⟩

def isNull (out : CTxOut) : Bool := out.nValue == -1
def isEmpty (out : CTxOut) : Bool := out.nValue == 0 && out.scriptPubKey.isEmpty

@[simp] theorem isNull_null : isNull null = true := rfl

end CTxOut

def OP_RETURN : UInt8 := 0x6a

def CScript.isUnspendable (script : CScript) : Bool := script.head? == some OP_RETURN

structure CTransaction where
  nVersion : Int
  vin : List CTxIn
  vout : List CTxOut
  nLockTime : Nat
  deriving DecidableEq, Repr

-- SerializeHash of a transaction: double SHA-256, of which nothing but the value is used.
class TxHasher where
  serializeHash : CTransaction → Uint256

namespace CTransaction

def getHash [TxHasher] (tx : CTransaction) : Uint256 := TxHasher.serializeHash tx

def isCoinBase (tx : CTransaction) : Bool :=
  match tx.vin with
  | [txin] => txin.prevout.isNull
  | _ => false

def isCoinStake (tx : CTransaction) : Bool :=
  match tx.vin, tx.vout with
  | txin :: _, first :: _ :: _ => !txin.prevout.isNull && first.isEmpty
  | _, _ => false

def prevouts (tx : CTransaction) : List COutPoint := tx.vin.map CTxIn.prevout

end CTransaction

def maxInt64 : Int := 2 ^ 63 - 1

-- GetValueOut throws on a negative output and when the sum wraps the int64_t boundary.
def addValueOut (nValueOut : Int) (out : CTxOut) : Option Int :=
  if out.nValue < 0 then none
  else if maxInt64 < nValueOut + out.nValue then none
  else some (nValueOut + out.nValue)

def CTransaction.getValueOut (tx : CTransaction) : Option Int :=
  tx.vout.foldlM addValueOut 0

def getSizeOfCompactSize (nSize : Nat) : Nat :=
  if nSize < 253 then 1 else if nSize ≤ 0xffff then 3 else if nSize ≤ 0xffffffff then 5 else 9

def CScript.getSerializeSize (script : CScript) : Nat :=
  getSizeOfCompactSize script.length + script.length

def CTxIn.getSerializeSize (txin : CTxIn) : Nat := 36 + txin.scriptSig.getSerializeSize + 4

def CTxOut.getSerializeSize (txout : CTxOut) : Nat := 8 + txout.scriptPubKey.getSerializeSize

def CTransaction.getSerializeSize (tx : CTransaction) : Nat :=
  4 + getSizeOfCompactSize tx.vin.length + (tx.vin.map CTxIn.getSerializeSize).sum +
    getSizeOfCompactSize tx.vout.length + (tx.vout.map CTxOut.getSerializeSize).sum + 4

theorem addValueOut_some (start total : Int) (out : CTxOut)
    (added : addValueOut start out = some total) : 0 ≤ out.nValue ∧ total = start + out.nValue := by
  simp only [addValueOut] at added
  split at added
  · cases added
  · split at added
    · cases added
    · cases added
      exact ⟨by omega, rfl⟩

theorem foldlM_addValueOut_some (outs : List CTxOut) (start total : Int)
    (summed : outs.foldlM addValueOut start = some total) :
    (∀ out ∈ outs, 0 ≤ out.nValue) ∧ total = start + (outs.map CTxOut.nValue).sum := by
  induction outs generalizing start with
  | nil =>
      cases summed
      simp
  | cons out rest ih =>
      rw [List.foldlM_cons] at summed
      obtain ⟨mid, added, tail⟩ := Option.bind_eq_some_iff.mp summed
      obtain ⟨nonneg, rfl⟩ := addValueOut_some start mid out added
      obtain ⟨others, sum⟩ := ih _ tail
      refine ⟨by simpa using ⟨nonneg, others⟩, ?_⟩
      rw [sum, List.map_cons, List.sum_cons, Int.add_assoc]

theorem CTransaction.getValueOut_some (tx : CTransaction) (total : Int)
    (summed : tx.getValueOut = some total) :
    (∀ out ∈ tx.vout, 0 ≤ out.nValue) ∧ total = (tx.vout.map CTxOut.nValue).sum := by
  simpa using foldlM_addValueOut_some tx.vout 0 total summed

end CryptoYen
