import CryptoYen.Primitives.Transaction

set_option autoImplicit false

namespace CryptoYen

structure CBlockHeader where
  nVersion : Int
  hashPrevBlock : Uint256
  hashMerkleRoot : Uint256
  nTime : Nat
  nBits : BitVec 32
  nNonce : Nat
  deriving DecidableEq, Repr

-- HashQuark of the header's fields.
class BlockHasher where
  hashQuark : CBlockHeader → Uint256

class MerkleHasher where
  hashPair : Uint256 → Uint256 → Uint256

def CBlockHeader.getHash [BlockHasher] (header : CBlockHeader) : Uint256 :=
  BlockHasher.hashQuark header

structure CBlock extends CBlockHeader where
  vtx : List CTransaction
  vchBlockSig : List UInt8
  deriving DecidableEq, Repr

-- One level of the tree: the last node stands for its missing sibling, and a pair of equal
-- nodes at the end of a level is the mutation that CVE-2012-2459 is about.
def merkleLevel [MerkleHasher] : List Uint256 → List Uint256 × Bool
  | [] => ([], false)
  | [last] => ([MerkleHasher.hashPair last last], false)
  | [left, right] => ([MerkleHasher.hashPair left right], left == right)
  | left :: right :: rest =>
      let (next, mutated) := merkleLevel rest
      (MerkleHasher.hashPair left right :: next, mutated)

-- A level of more than one node shrinks, so the number of leaves is fuel enough.
def merkleRoot [MerkleHasher] : Nat → List Uint256 → Bool → Uint256 × Bool
  | _, [], mutated => (0, mutated)
  | _, [root], mutated => (root, mutated)
  | 0, root :: _, mutated => (root, mutated)
  | fuel + 1, level, mutated =>
      let (next, here) := merkleLevel level
      merkleRoot fuel next (mutated || here)

namespace CBlock

def getHash [BlockHasher] (block : CBlock) : Uint256 := block.toCBlockHeader.getHash

def isProofOfStake (block : CBlock) : Bool :=
  match block.vtx[1]? with
  | some tx => tx.isCoinStake
  | none => false

def isProofOfWork (block : CBlock) : Bool := !block.isProofOfStake

def buildMerkleTree [TxHasher] [MerkleHasher] (block : CBlock) : Uint256 × Bool :=
  merkleRoot block.vtx.length (block.vtx.map CTransaction.getHash) false

def getSerializeSize (block : CBlock) : Nat :=
  80 + getSizeOfCompactSize block.vtx.length + (block.vtx.map CTransaction.getSerializeSize).sum +
    if block.isProofOfStake then
      getSizeOfCompactSize block.vchBlockSig.length + block.vchBlockSig.length
    else 0

theorem isProofOfWork_iff (block : CBlock) :
    block.isProofOfWork = true ↔ block.isProofOfStake = false := by
  simp [isProofOfWork]

end CBlock

end CryptoYen
