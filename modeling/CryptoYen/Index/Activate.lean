import CryptoYen.Index.Tree

set_option autoImplicit false

namespace CryptoYen

inductive TipOutcome
  | success
  | invalid (corruptionPossible : Bool)
  | systemError
  deriving DecidableEq, Repr

structure Verdicts where
  disconnects : BlockPtr → Bool
  connects : BlockPtr → TipOutcome

/-- Where a list of blocks to connect was left: at its end, early, or at a system error. -/
inductive Progress
  | onward | stopped | failed
  deriving DecidableEq, Repr

inductive RoundEnd
  | returned (ok : Bool)
  | again
  deriving DecidableEq, Repr

namespace BlockTree

variable (tree : BlockTree)

section finding

def usable (p : BlockPtr) : Bool := !(tree.entry p).nStatus.failed && tree.haveData p

-- The path down to the active chain; the outer none is FindMostWorkChain's assertion.
def testPath : List BlockPtr → Option (Option BlockPtr)
  | [] => some none
  | pindexTest :: rest =>
      if !tree.linked pindexTest && tree.height pindexTest != 0 then none
      else if tree.usable pindexTest then testPath rest
      else some (some pindexTest)

def pathToActive (p : BlockPtr) : List BlockPtr :=
  (tree.ancestry p).takeWhile (· ∉ tree.chainActive)

def dropDescendant (fFailedChain : Bool) (tree : BlockTree) (pindexFailed : BlockPtr) : BlockTree :=
  let status := (tree.entry pindexFailed).nStatus
  let marked :=
    if fFailedChain then tree.setStatus pindexFailed { status with failedChild := true }
    else
      { tree with
        mapBlocksUnlinked :=
          tree.mapBlocksUnlinked ++ [(tree.pprev pindexFailed, pindexFailed)] }
  marked.eraseCandidate pindexFailed

def dropChain (pindexNew pindexTest : BlockPtr) : BlockTree :=
  let fFailedChain := (tree.entry pindexTest).nStatus.failed
  let above := (tree.ancestry pindexNew).takeWhile (· ≠ pindexTest)
  (above.foldl (dropDescendant fFailedChain) tree).eraseCandidate pindexTest

def findMostWork : Nat → BlockTree → Option (BlockTree × Option BlockPtr)
  | 0, _ => none
  | fuel + 1, tree =>
      match Ranking.last tree.worse tree.setBlockIndexCandidates with
      | none => some (tree, none)
      | some pindexNew =>
          match tree.testPath (tree.pathToActive pindexNew) with
          | none => none
          | some none => some (tree, some pindexNew)
          | some (some pindexTest) => findMostWork fuel (tree.dropChain pindexNew pindexTest)

def findMostWorkChain : Option (BlockTree × Option BlockPtr) :=
  findMostWork (tree.setBlockIndexCandidates.length + 1) tree

end finding

-- The set is ordered, so its entries worse than the tip are those at its beginning.
def pruneBlockIndexCandidates : Option BlockTree :=
  let kept := tree.setBlockIndexCandidates.filter fun p => !tree.worseThanTip p
  if kept.isEmpty then none else some { tree with setBlockIndexCandidates := kept }

-- InvalidChainFound reads the tip's hash, so without a tip there is no next state.
def invalidBlockFound (pindex : BlockPtr) (corruptionPossible : Bool) : Option BlockTree :=
  if corruptionPossible then some tree
  else if tree.chainActive.isEmpty then none
  else
    let status := (tree.entry pindex).nStatus
    some ((tree.setStatus pindex { status with failedValid := true }).eraseCandidate pindex)

-- ConnectBlock leaves the status of the genesis block alone.
def connectedStatus (params : CChainParams) [BlockHasher] (entry : TreeEntry) : BlockStatus :=
  if entry.phashBlock = params.hashGenesisBlock then entry.nStatus
  else { entry.nStatus with haveUndo := true }.raiseValidity BLOCK_VALID_SCRIPTS

section connecting

variable (params : CChainParams) [BlockHasher]

def connectTip (pindexNew : BlockPtr) (outcome : TipOutcome) : Option BlockTree :=
  if tree.pprev pindexNew ≠ tree.tip then none
  else
    match outcome with
    | .success =>
        some
          { tree.setStatus pindexNew (connectedStatus params (tree.entry pindexNew)) with
            chainActive := pindexNew :: tree.chainActive }
    | .invalid corruptionPossible => tree.invalidBlockFound pindexNew corruptionPossible
    | .systemError => some tree

def improves (pindexOldTip : Option BlockPtr) : Bool :=
  match pindexOldTip, tree.tip with
  | none, _ => true
  | some _, none => false
  | some old, some tip => (tree.entry old).nChainWork < (tree.entry tip).nChainWork

def connectBlocks (pindexOldTip : Option BlockPtr) (connects : BlockPtr → TipOutcome) :
    BlockTree → List BlockPtr → Option (BlockTree × Progress)
  | tree, [] => some (tree, .onward)
  | tree, pindexConnect :: rest =>
      match tree.connectTip params pindexConnect (connects pindexConnect) with
      | none => none
      | some next =>
          match connects pindexConnect with
          | .success =>
              match next.pruneBlockIndexCandidates with
              | none => none
              | some pruned =>
                  if pruned.improves pindexOldTip then some (pruned, .stopped)
                  else connectBlocks pindexOldTip connects pruned rest
          | .invalid _ => some (next, .stopped)
          | .systemError => some (next, .failed)

def getAncestor (p : BlockPtr) (nHeight : Int) : Option BlockPtr :=
  (tree.ancestry p).find? fun q => (tree.height q : Int) == nHeight

def blocksToConnect (pindexMostWork : BlockPtr) (nHeight nTargetHeight : Int) : List BlockPtr :=
  match tree.getAncestor pindexMostWork nTargetHeight with
  | none => []
  | some pindexIter =>
      ((tree.ancestry pindexIter).takeWhile fun q => (tree.height q : Int) != nHeight).reverse

def connectBatches (pindexOldTip : Option BlockPtr) (connects : BlockPtr → TipOutcome)
    (pindexMostWork : BlockPtr) : Nat → Int → BlockTree → Option (BlockTree × Bool)
  | 0, _, _ => none
  | fuel + 1, nHeight, tree =>
      if nHeight = tree.height pindexMostWork then some (tree, true)
      else
        let nTargetHeight := min (nHeight + 32) (tree.height pindexMostWork)
        match connectBlocks params pindexOldTip connects tree
            (tree.blocksToConnect pindexMostWork nHeight nTargetHeight) with
        | none => none
        | some (next, .onward) =>
            connectBatches pindexOldTip connects pindexMostWork fuel nTargetHeight next
        | some (next, .stopped) => some (next, true)
        | some (next, .failed) => some (next, false)

def findFork (p : BlockPtr) : Option BlockPtr :=
  (tree.ancestry p).find? (· ∈ tree.chainActive)

-- DisconnectTip until the tip is the fork; a block without undo data cannot be disconnected.
def disconnectTips (pindexFork : Option BlockPtr) (disconnects : BlockPtr → Bool) :
    List BlockPtr → List BlockPtr × Bool
  | [] => ([], true)
  | pindexDelete :: rest =>
      if some pindexDelete = pindexFork then (pindexDelete :: rest, true)
      else if (tree.entry pindexDelete).nStatus.haveUndo && disconnects pindexDelete then
        disconnectTips pindexFork disconnects rest
      else (pindexDelete :: rest, false)

def activateBestChainStep (pindexMostWork : BlockPtr) (verdicts : Verdicts) :
    Option (BlockTree × Bool) :=
  let pindexFork := tree.findFork pindexMostWork
  match tree.disconnectTips pindexFork verdicts.disconnects tree.chainActive with
  | (chainActive, false) => some ({ tree with chainActive := chainActive }, false)
  | (chainActive, true) =>
      let nHeight : Int := (pindexFork.map fun p => (tree.height p : Int)).getD (-1)
      connectBatches params tree.tip verdicts.connects pindexMostWork
        (tree.height pindexMostWork + 2) nHeight { tree with chainActive := chainActive }

def activateBestChainRound (verdicts : Verdicts) : Option (BlockTree × RoundEnd) :=
  match tree.findMostWorkChain with
  | none => none
  | some (found, none) => some (found, .returned true)
  | some (found, some pindexMostWork) =>
      if found.tip = some pindexMostWork then some (found, .returned true)
      else
        match found.activateBestChainStep params pindexMostWork verdicts with
        | none => none
        | some (next, false) => some (next, .returned false)
        | some (next, true) =>
            if next.tip = some pindexMostWork then some (next, .returned true)
            else some (next, .again)

end connecting

end BlockTree

end CryptoYen
