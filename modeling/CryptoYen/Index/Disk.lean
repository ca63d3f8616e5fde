import CryptoYen.Index.Entry
import CryptoYen.Primitives.Format

set_option autoImplicit false

namespace CryptoYen

structure BlockFields where
  nFile : Nat
  nDataPos : Nat
  nUndoPos : Nat
  nMoneySupply : Int
  nFlags : BitVec 32
  nStakeModifier : BitVec 64
  prevoutStake : COutPoint
  nStakeTime : Nat
  hashProofOfStake : Uint256
  nVersion : Int
  hashMerkleRoot : Uint256
  nTime : Nat
  nBits : BitVec 32
  nNonce : Nat
  deriving DecidableEq, Repr

namespace BlockFields

def BLOCK_PROOF_OF_STAKE : BitVec 32 := 1

def null : BlockFields := ⟨0, 0, 0, 0, 0, 0, .null, 0, 0, 0, 0, 0, 0, 0⟩

variable (fields : BlockFields)

def isProofOfStake : Bool := fields.nFlags &&& BLOCK_PROOF_OF_STAKE != 0

def header (hashPrev : Uint256) : CBlockHeader where
  nVersion := fields.nVersion
  hashPrevBlock := hashPrev
  hashMerkleRoot := fields.hashMerkleRoot
  nTime := fields.nTime
  nBits := fields.nBits
  nNonce := fields.nNonce

end BlockFields

structure CDiskBlockIndex extends BlockFields where
  nHeight : Nat
  nStatus : BlockStatus
  nTx : Nat
  hashPrev : Uint256
  hashNext : Uint256
  deriving DecidableEq, Repr

namespace CDiskBlockIndex

def getBlockHash [BlockHasher] (d : CDiskBlockIndex) : Uint256 := (d.header d.hashPrev).getHash

-- Positions are written with the flags that give them a meaning, the stake of a proof-of-stake
-- block only, and its hash not at all.
def stored (d : CDiskBlockIndex) : CDiskBlockIndex where
  toBlockFields :=
    { d.toBlockFields with
      nFile := if d.nStatus.haveData || d.nStatus.haveUndo then d.nFile else 0
      nDataPos := if d.nStatus.haveData then d.nDataPos else 0
      nUndoPos := if d.nStatus.haveUndo then d.nUndoPos else 0
      prevoutStake := if d.isProofOfStake then d.prevoutStake else .null
      nStakeTime := if d.isProofOfStake then d.nStakeTime else 0
      hashProofOfStake := 0 }
  nHeight := d.nHeight
  nStatus := d.nStatus
  nTx := d.nTx
  hashPrev := d.hashPrev
  hashNext := d.hashNext

end CDiskBlockIndex

def BlockStatus.toNat (status : BlockStatus) : Nat :=
  status.valid + 8 * status.haveData.toNat + 16 * status.haveUndo.toNat +
    32 * status.failedValid.toNat + 64 * status.failedChild.toNat

def BlockStatus.ofNat (n : Nat) : BlockStatus where
  valid := n % 8
  haveData := n / 8 % 2 == 1
  haveUndo := n / 16 % 2 == 1
  failedValid := n / 32 % 2 == 1
  failedChild := n / 64 % 2 == 1

theorem BlockStatus.ofNat_toNat (status : BlockStatus) (typed : status.valid < 8) :
    ofNat status.toNat = status := by
  obtain ⟨valid, haveData, haveUndo, failedValid, failedChild⟩ := status
  simp only at typed
  have low : (valid + 8 * haveData.toNat + 16 * haveUndo.toNat + 32 * failedValid.toNat +
      64 * failedChild.toNat) % 8 = valid := by omega
  simp only [toNat, ofNat, low, mk.injEq, true_and]
  have bit (b : Bool) : b.toNat = 0 ∧ b = false ∨ b.toNat = 1 ∧ b = true := by cases b <;> simp
  rcases bit haveData with ⟨d, rfl⟩ | ⟨d, rfl⟩ <;> rcases bit haveUndo with ⟨u, rfl⟩ | ⟨u, rfl⟩ <;>
    rcases bit failedValid with ⟨v, rfl⟩ | ⟨v, rfl⟩ <;>
    rcases bit failedChild with ⟨c, rfl⟩ | ⟨c, rfl⟩ <;>
    refine ⟨?_, ?_, ?_, ?_⟩ <;> simp only [beq_iff_eq, beq_eq_false_iff_ne, ne_eq] <;> omega

theorem BlockStatus.toNat_lt (status : BlockStatus) (typed : status.valid < 8) :
    status.toNat < 2 ^ 32 := by
  have bit (b : Bool) : b.toNat ≤ 1 := Bool.toNat_le b
  have data := bit status.haveData
  have undo := bit status.haveUndo
  have valid := bit status.failedValid
  have child := bit status.failedChild
  unfold toNat
  omega

end CryptoYen
