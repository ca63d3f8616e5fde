import CryptoYen.Index.ChainVector
import CryptoYen.Index.CommonAncestor
import CryptoYen.Net.BlocksInFlight

set_option autoImplicit false

namespace CryptoYen

def BLOCK_DOWNLOAD_WINDOW : Nat := 1024

structure PeerChain where
  pindexBestKnownBlock : Option BlockPtr
  hashLastUnknownBlock : Uint256
  pindexLastCommonBlock : Option BlockPtr
  deriving DecidableEq, Repr

namespace PeerChain

def initial : PeerChain := ⟨none, 0, none⟩

section announcing

variable (tree : BlockTree) (peer : PeerChain)

def offer (p : BlockPtr) : PeerChain :=
  match peer.pindexBestKnownBlock with
  | none => { peer with pindexBestKnownBlock := some p }
  | some best =>
      if (tree.entry best).nChainWork ≤ (tree.entry p).nChainWork then
        { peer with pindexBestKnownBlock := some p }
      else peer

def processBlockAvailability : PeerChain :=
  if peer.hashLastUnknownBlock = 0 then peer
  else
    match tree.find peer.hashLastUnknownBlock with
    | none => peer
    | some p =>
        if 0 < (tree.entry p).nChainWork then
          { peer.offer tree p with hashLastUnknownBlock := 0 }
        else peer

def updateBlockAvailability (hash : Uint256) : PeerChain :=
  let processed := peer.processBlockAvailability tree
  match tree.find hash with
  | none => { processed with hashLastUnknownBlock := hash }
  | some p =>
      if 0 < (tree.entry p).nChainWork then processed.offer tree p
      else { processed with hashLastUnknownBlock := hash }

end announcing

end PeerChain

abbrev InFlight := AList fun _ : Uint256 => NodeId × ListNode

structure DownloadSearch where
  nodeid : NodeId
  count : Nat
  pindexBestKnownBlock : BlockPtr
  nWindowEnd : Nat
  nMaxHeight : Nat
  mapBlocksInFlight : InFlight

structure DownloadPlan where
  vBlocks : List BlockPtr
  pindexLastCommonBlock : BlockPtr
  waitingfor : NodeId
  nodeStaller : NodeId
  deriving DecidableEq, Repr

namespace DownloadSearch

variable (tree : SkipTree) (search : DownloadSearch)

/-- The blocks of vToFetch in forward direction; true when the function returns among them. -/
def visit : List BlockPtr → DownloadPlan → DownloadPlan × Bool
  | [], plan => (plan, false)
  | pindex :: rest, plan =>
      -- We consider the chain that this peer is on invalid.
      if !(tree.entry pindex).nStatus.isValid BLOCK_VALID_TREE then (plan, true)
      else if tree.haveData pindex then
        if tree.linked pindex then visit rest { plan with pindexLastCommonBlock := pindex }
        else visit rest plan
      else
        match search.mapBlocksInFlight.lookup (tree.entry pindex).phashBlock with
        | none =>
            if search.nWindowEnd < tree.height pindex then
              -- We reached the end of the window.
              if plan.vBlocks = [] ∧ plan.waitingfor ≠ search.nodeid then
                ({ plan with nodeStaller := plan.waitingfor }, true)
              else (plan, true)
            else
              let pushed := { plan with vBlocks := plan.vBlocks ++ [pindex] }
              if pushed.vBlocks.length = search.count then (pushed, true) else visit rest pushed
        | some queued =>
            if plan.waitingfor = -1 then visit rest { plan with waitingfor := queued.1 }
            else visit rest plan

-- vToFetch is written from its end; none is a null pointer in it.
def fillBack : Nat → Option BlockPtr → List BlockPtr → Option (List BlockPtr)
  | 0, _, vToFetch => some vToFetch
  | _ + 1, none, _ => none
  | n + 1, some pindex, vToFetch => fillBack n (tree.pprev pindex) (pindex :: vToFetch)

def nToFetch (height size : Nat) : Nat :=
  min (search.nMaxHeight - height)
    (max (Int.bmod ((search.count : Int) - size) (2 ^ 32)) 128).toNat

/-- The loop of FindNextBlocksToDownload; none is a null pointer that is followed. -/
def run : Nat → BlockPtr → DownloadPlan → Option DownloadPlan
  | 0, _, _ => none
  | fuel + 1, pindexWalk, plan =>
      if search.nMaxHeight ≤ tree.height pindexWalk then some plan
      else
        let n := search.nToFetch (tree.height pindexWalk) plan.vBlocks.length
        match tree.getAncestor search.pindexBestKnownBlock (tree.height pindexWalk + n) with
        | none => none
        | some none => none
        | some (some next) =>
            match fillBack tree n (some next) [] with
            | none => none
            | some vToFetch =>
                match search.visit tree vToFetch plan with
                | (visited, true) => some visited
                | (visited, false) => run fuel next visited

end DownloadSearch

section finding

variable (tree : SkipTree) (chainActive : ChainVector)

/-- The last common block with which a search starts: without one so far a parent of our best tip
is the guess. -/
def lastCommonStart (peer : PeerChain) (best : BlockPtr) : Option (Option BlockPtr) :=
  match peer.pindexLastCommonBlock.or
      (chainActive.blockAt (min (tree.height best) chainActive.height)) with
  | none => none
  | some guess => tree.lastCommonAncestor guess best

/-- Update pindexLastCommonBlock and add not-in-flight missing successors to vBlocks. The outer
none is a null pointer that is followed. -/
def findNextBlocksToDownload (mapBlocksInFlight : InFlight) (nodeid : NodeId) (count : Nat)
    (peer : PeerChain) (vBlocks : List BlockPtr) (nodeStaller : NodeId) :
    Option (PeerChain × List BlockPtr × NodeId) :=
  if count = 0 then some (peer, vBlocks, nodeStaller)
  else
    let state := peer.processBlockAvailability tree.toBlockTree
    match state.pindexBestKnownBlock with
    | none => some (state, vBlocks, nodeStaller)
    | some best =>
        match chainActive.tip with
        | none => none
        | some tip =>
            -- This peer has nothing interesting.
            if (tree.entry best).nChainWork < (tree.entry tip).nChainWork then
              some (state, vBlocks, nodeStaller)
            else
              match lastCommonStart tree chainActive state best with
              | none => none
              | some none => none
              | some (some start) =>
                  if start = best then
                    some ({ state with pindexLastCommonBlock := some start }, vBlocks, nodeStaller)
                  else
                    let nWindowEnd := tree.height start + BLOCK_DOWNLOAD_WINDOW
                    let nMaxHeight := min (tree.height best) (nWindowEnd + 1)
                    let search : DownloadSearch :=
                      ⟨nodeid, count, best, nWindowEnd, nMaxHeight, mapBlocksInFlight⟩
                    match search.run tree (nMaxHeight + 1) start
                        ⟨vBlocks, start, -1, nodeStaller⟩ with
                    | none => none
                    | some plan =>
                        some ({ state with pindexLastCommonBlock := some plan.pindexLastCommonBlock },
                          plan.vBlocks, plan.nodeStaller)

end finding

end CryptoYen
