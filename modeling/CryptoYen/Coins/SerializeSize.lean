import CryptoYen.Coins.Serialize

set_option autoImplicit false

namespace CryptoYen

open Codec

-- What WriteVarInt does, with its bytes counted.
def getSizeOfVarInt (n : Nat) : Nat :=
  if n ≤ 0x7f then 1 else getSizeOfVarInt (n / 128 - 1) + 1
termination_by n
decreasing_by omega

theorem varBytes_length (mark n : Nat) : (varBytes mark n).length = getSizeOfVarInt n := by
  induction n using Nat.strong_induction_on generalizing mark with
  | _ n ih =>
      rw [varBytes, getSizeOfVarInt]
      by_cases small : n < 128
      · rw [if_pos small, if_pos (Nat.le_of_lt_succ small)]
        rfl
      · rw [if_neg small, if_neg (by omega), List.length_append, ih _ (by omega)]
        rfl

def varIntLimit : Nat → Nat
  | 0 => 0
  | size + 1 => 128 * varIntLimit size + 128

theorem getSizeOfVarInt_le_iff (size n : Nat) :
    getSizeOfVarInt n ≤ size ↔ n < varIntLimit size := by
  induction size generalizing n with
  | zero =>
      rw [getSizeOfVarInt, varIntLimit]
      split <;> omega
  | succ size ih =>
      rw [getSizeOfVarInt, varIntLimit]
      split
      next => omega
      next =>
        rw [Nat.add_le_add_iff_right, ih]
        omega

def varIntLimits : List Nat := [0x80, 0x4080, 0x204080, 0x10204080]

theorem getSizeOfVarInt_eq_iff (m n : Nat) (small : m < 2 ^ 32) (bound : n < 2 ^ 32) :
    getSizeOfVarInt m = getSizeOfVarInt n ↔ ∀ limit ∈ varIntLimits, (m < limit ↔ n < limit) := by
  have first (k : Nat) : getSizeOfVarInt k ≤ 1 ↔ k < 0x80 := getSizeOfVarInt_le_iff 1 k
  have second (k : Nat) : getSizeOfVarInt k ≤ 2 ↔ k < 0x4080 := getSizeOfVarInt_le_iff 2 k
  have third (k : Nat) : getSizeOfVarInt k ≤ 3 ↔ k < 0x204080 := getSizeOfVarInt_le_iff 3 k
  have fourth (k : Nat) : getSizeOfVarInt k ≤ 4 ↔ k < 0x10204080 := getSizeOfVarInt_le_iff 4 k
  have fifth (k : Nat) : getSizeOfVarInt k ≤ 5 ↔ k < 0x810204080 := getSizeOfVarInt_le_iff 5 k
  have empty (k : Nat) : getSizeOfVarInt k ≤ 0 ↔ k < 0 := getSizeOfVarInt_le_iff 0 k
  have last := (fifth m).mpr (by omega)
  have also := (fifth n).mpr (by omega)
  simp only [varIntLimits, List.forall_mem_cons, List.not_mem_nil, false_implies, implies_true,
    and_true, ← first, ← second, ← third, ← fourth]
  have positive (k : Nat) : 1 ≤ getSizeOfVarInt k := by
    have none_zero := (empty k).not.mpr (Nat.not_lt_zero _)
    omega
  have here := positive m
  have there := positive n
  constructor
  · intro same
    simp [same]
  · intro sides
    omega

def getSizeOfVarIntSigned (n : Int) : Nat := if n ≤ 0x7f then 1 else getSizeOfVarInt n.toNat

theorem writeVarInt_length (n : Int) : (writeVarInt n).length = getSizeOfVarIntSigned n := by
  rw [writeVarInt, getSizeOfVarIntSigned]
  split
  next => rfl
  next => exact varBytes_length 0 n.toNat

namespace CCoins

variable [PubKeys] (coins : CCoins)

def outputsSize : Nat :=
  (coins.vout.map fun txout =>
    if txout.isNull then 0 else (CTxOutCompressor.serialize txout).length).sum

def getSerializeSize : Option Nat :=
  if coins.hasOutput then
    some ((getSizeOfVarIntSigned coins.nVersion + getSizeOfVarInt (coins.headerCode 8) +
      coins.calcMaskSize.1 + coins.outputsSize + getSizeOfVarIntSigned coins.nHeight) % 2 ^ 32)
  else none

theorem serialize_length (bytes : List UInt8) (written : coins.serialize = some bytes) :
    bytes.length = getSizeOfVarIntSigned coins.nVersion +
      getSizeOfVarInt (coins.headerCode 16) + coins.calcMaskSize.1 + coins.outputsSize +
        getSizeOfVarIntSigned coins.nHeight := by
  rw [serialize] at written
  split at written
  next =>
    rw [Option.some.injEq] at written
    have outputs : (coins.vout.flatMap fun txout =>
        if txout.isNull then [] else CTxOutCompressor.serialize txout).length =
        coins.outputsSize := by
      rw [List.length_flatMap, outputsSize]
      refine congrArg List.sum (List.map_congr_left fun txout _ => ?_)
      split <;> rfl
    rw [← written]
    simp only [List.length_append, writeVarInt_length, varBytes_length, outputs, Bitmap.mask,
      List.length_map, List.length_range]
    omega
  next => cases written

/-- The announced size takes the header code with a factor of eight, the written one has sixteen:
they agree when both codes have the same length. -/
theorem getSerializeSize_iff (bytes : List UInt8) (written : coins.serialize = some bytes) :
    coins.getSerializeSize = some bytes.length ↔
      bytes.length < 2 ^ 32 ∧
        ∀ limit ∈ varIntLimits, (coins.headerCode 8 < limit ↔ coins.headerCode 16 < limit) := by
  have output : coins.hasOutput = true := by
    rw [serialize] at written
    split at written
    next output => exact output
    next => cases written
  have length := coins.serialize_length bytes written
  have small : coins.headerCode 8 < 2 ^ 32 := Nat.mod_lt _ (by decide)
  have bound : coins.headerCode 16 < 2 ^ 32 := Nat.mod_lt _ (by decide)
  have short := (getSizeOfVarInt_le_iff 5 (coins.headerCode 8)).mpr (Nat.lt_trans small (by decide))
  have long := (getSizeOfVarInt_le_iff 5 (coins.headerCode 16)).mpr
    (Nat.lt_trans bound (by decide))
  rw [getSerializeSize, if_pos output, Option.some.injEq,
    ← getSizeOfVarInt_eq_iff _ _ small bound]
  constructor
  · intro announced
    constructor <;> omega
  · intro agree
    obtain ⟨inside, same⟩ := agree
    omega

theorem serialize_some (unpruned : coins.isPruned = false) :
    ∃ bytes, coins.serialize = some bytes := by
  rw [serialize, if_pos (coins.hasOutput_of_unpruned unpruned)]
  exact ⟨_, rfl⟩

/-- The announced size is the written one exactly when the header code needs as many bytes with the
factor of eight as with the one of sixteen, and the total fits into the result. -/
theorem getSerializeSize_exact_iff (unpruned : coins.isPruned = false) :
    ∃ bytes, coins.serialize = some bytes ∧
      (coins.getSerializeSize = some bytes.length ↔
        bytes.length < 2 ^ 32 ∧
          ∀ limit ∈ varIntLimits,
            (coins.headerCode 8 < limit ↔ coins.headerCode 16 < limit)) := by
  obtain ⟨bytes, written⟩ := coins.serialize_some unpruned
  exact ⟨bytes, written, coins.getSerializeSize_iff bytes written⟩

end CCoins

theorem getSerializeSize_exact_gapped :
    ∃ bytes, @CCoins.serialize gappedCoins noUncompressedKeys = some bytes ∧
      (@CCoins.getSerializeSize noUncompressedKeys gappedCoins = some bytes.length ↔
        bytes.length < 2 ^ 32 ∧
          ∀ limit ∈ varIntLimits,
            (gappedCoins.headerCode 8 < limit ↔ gappedCoins.headerCode 16 < limit)) :=
  @CCoins.getSerializeSize_exact_iff noUncompressedKeys gappedCoins (by decide)

def wideCoins : CCoins where
  fCoinBase := false
  fCoinStake := false
  vout := List.replicate 66 ⟨1, []⟩
  nHeight := 100
  nVersion := 1

theorem getSerializeSize_short :
    wideCoins.isPruned = false ∧
      ∀ bytes, @CCoins.serialize wideCoins noUncompressedKeys = some bytes →
        @CCoins.getSerializeSize noUncompressedKeys wideCoins ≠ some bytes.length := by
  constructor
  · decide
  · intro bytes written announced
    obtain ⟨_, sides⟩ := (@CCoins.getSerializeSize_iff noUncompressedKeys wideCoins bytes
      written).mp announced
    have first := sides 0x80 List.mem_cons_self
    revert first
    decide +kernel

end CryptoYen
