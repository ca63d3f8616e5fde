import Mathlib.Logic.Function.Basic
import CryptoYen.Index.Entry
import CryptoYen.Library.Ancestry

set_option autoImplicit false

namespace CryptoYen

/-- The block tree and the globals that main.cpp keeps beside it; chainActive has its tip first. -/
structure BlockTree where
  mapBlockIndex : List BlockPtr
  entry : BlockPtr → TreeEntry
  chainActive : List BlockPtr
  setBlockIndexCandidates : List BlockPtr
  mapBlocksUnlinked : List (Option BlockPtr × BlockPtr)
  nBlockSequenceId : Nat

namespace BlockTree

def empty : BlockTree where
  mapBlockIndex := []
  entry := fun _ => .null
  chainActive := []
  setBlockIndexCandidates := []
  mapBlocksUnlinked := []
  nBlockSequenceId := 1

variable (tree : BlockTree)

def pprev (p : BlockPtr) : Option BlockPtr := (tree.entry p).pprev

def height (p : BlockPtr) : Nat := (tree.entry p).nHeight

def tip : Option BlockPtr := tree.chainActive.head?

-- nChainTx is set.
def linked (p : BlockPtr) : Bool := (tree.entry p).nChainTx != 0

def haveData (p : BlockPtr) : Bool := (tree.entry p).nStatus.haveData

def setEntry (p : BlockPtr) (entry : TreeEntry) : BlockTree :=
  { tree with entry := Function.update tree.entry p entry }

def setStatus (p : BlockPtr) (status : BlockStatus) : BlockTree :=
  tree.setEntry p { tree.entry p with nStatus := status }

def worse (pa pb : BlockPtr) : Bool :=
  (tree.entry pa).workComparator (tree.entry pb) pa pb

def worseThanTip (p : BlockPtr) : Bool :=
  match tree.tip with
  | none => false
  | some tip => tree.worse p tip

def ancestry (p : BlockPtr) : List BlockPtr :=
  Ancestry.ancestry tree.pprev (tree.height p + 1) p

def find (hash : Uint256) : Option BlockPtr :=
  tree.mapBlockIndex.find? fun p => (tree.entry p).phashBlock == hash

def eraseCandidate (p : BlockPtr) : BlockTree :=
  { tree with setBlockIndexCandidates := tree.setBlockIndexCandidates.filter (· != p) }

def newEntry [BlockHasher] (block : CBlockHeader) : TreeEntry :=
  let pprev := tree.find block.hashPrevBlock
  { TreeEntry.null with
    phashBlock := block.getHash
    pprev := pprev
    nHeight := (pprev.map fun q => tree.height q + 1).getD 0
    nChainWork :=
      (pprev.map fun q => (tree.entry q).nChainWork).getD 0 + getBlockProof block.nBits
    nStatus := BlockStatus.unknown.raiseValidity BLOCK_VALID_TREE }

-- pindexNew is the address that `new` returns.
def addToBlockIndex [BlockHasher] (block : CBlockHeader) (pindexNew : BlockPtr) : BlockTree :=
  match tree.find block.getHash with
  | some _ => tree
  | none =>
      { tree.setEntry pindexNew (tree.newEntry block) with
        mapBlockIndex := pindexNew :: tree.mapBlockIndex }

def storedEntry (entry : TreeEntry) (nTx : Nat) : TreeEntry :=
  { entry with
    nTx := nTx % 2 ^ 32
    nChainTx := 0
    nStatus :=
      { entry.nStatus with haveData := true }.raiseValidity BLOCK_VALID_TRANSACTIONS }

def storeData (p : BlockPtr) (nTx : Nat) : BlockTree :=
  tree.setEntry p (storedEntry (tree.entry p) nTx)

def parentChainTx (p : BlockPtr) : Nat :=
  match tree.pprev p with
  | none => 0
  | some q => (tree.entry q).nChainTx

def numberBlock (p : BlockPtr) : BlockTree :=
  { tree.setEntry p
      { tree.entry p with
        nChainTx := (tree.parentChainTx p + (tree.entry p).nTx) % 2 ^ 32
        nSequenceId := tree.nBlockSequenceId } with
    nBlockSequenceId := (tree.nBlockSequenceId + 1) % 2 ^ 32 }

def offerBlock (p : BlockPtr) : BlockTree :=
  if tree.worseThanTip p then tree
  else { tree with setBlockIndexCandidates := tree.setBlockIndexCandidates.insert p }

def waitingFor (p : BlockPtr) : List BlockPtr :=
  (tree.mapBlocksUnlinked.filter fun pair => pair.1 == some p).map Prod.snd

def releaseWaiting (p : BlockPtr) : BlockTree :=
  { tree with mapBlocksUnlinked := tree.mapBlocksUnlinked.filter fun pair => pair.1 != some p }

def linkBlock (p : BlockPtr) : BlockTree :=
  ((tree.numberBlock p).offerBlock p).releaseWaiting p

def linkBlocks : Nat → BlockTree → List BlockPtr → BlockTree
  | 0, tree, _ => tree
  | _ + 1, tree, [] => tree
  | fuel + 1, tree, pindex :: queue =>
      linkBlocks fuel (tree.linkBlock pindex) (queue ++ tree.waitingFor pindex)

def parentLinked (p : BlockPtr) : Bool :=
  match tree.pprev p with
  | none => true
  | some q => tree.linked q

def awaitParent (p : BlockPtr) : BlockTree :=
  match tree.pprev p with
  | none => tree
  | some q =>
      if (tree.entry q).nStatus.isValid BLOCK_VALID_TREE then
        { tree with mapBlocksUnlinked := tree.mapBlocksUnlinked ++ [(some q, p)] }
      else tree

def receivedBlockTransactions (nTx : Nat) (pindexNew : BlockPtr) : BlockTree :=
  let stored := tree.storeData pindexNew nTx
  if stored.parentLinked pindexNew then
    linkBlocks (stored.mapBlocksUnlinked.length + 1) stored [pindexNew]
  else stored.awaitParent pindexNew

end BlockTree

end CryptoYen
