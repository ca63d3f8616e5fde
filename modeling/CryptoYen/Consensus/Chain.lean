import Mathlib.Data.List.Sort
import CryptoYen.Consensus.Params

set_option autoImplicit false

namespace CryptoYen

structure CBlockIndex where
  phashBlock : Uint256
  nHeight : Nat
  nVersion : Int
  nTime : Nat
  nBits : BitVec 32
  nMoneySupply : Int
  deriving DecidableEq, Repr

-- An index entry with its ancestors behind it: pprev is the tail.
abbrev CChain := List CBlockIndex

def CBlockIndex.getBlockTime (pindex : CBlockIndex) : Int := pindex.nTime

def CBlockHeader.getBlockTime (header : CBlockHeader) : Int := header.nTime

namespace CChain

def nMedianTimeSpan : Nat := 11

def getMedianTimePast (chain : CChain) : Int :=
  let times := ((chain.take nMedianTimeSpan).map CBlockIndex.getBlockTime).insertionSort (· ≤ ·)
  times.getD (times.length / 2) 0

-- Height of the entry in front; a chain without blocks has height -1.
def height : CChain → Int
  | [] => -1
  | pindex :: _ => pindex.nHeight

def nMoneySupply : CChain → Int
  | [] => 0
  | pindex :: _ => pindex.nMoneySupply

def Linked : CChain → Prop
  | [] => True
  | pindex :: ancestors => pindex.nHeight = ancestors.length ∧ Linked ancestors

end CChain

end CryptoYen
