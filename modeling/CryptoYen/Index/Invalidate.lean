import CryptoYen.Index.Runs

set_option autoImplicit false

namespace CryptoYen

namespace BlockTree

variable (tree : BlockTree)

def invalidateTips (pindex : BlockPtr) (disconnects : BlockPtr → Bool) :
    BlockTree → List BlockPtr → BlockTree × Bool
  | tree, [] => ({ tree with chainActive := [] }, true)
  | tree, pindexWalk :: rest =>
      if pindex ∈ pindexWalk :: rest then
        let status := (tree.entry pindexWalk).nStatus
        let marked :=
          (tree.setStatus pindexWalk { status with failedChild := true }).eraseCandidate pindexWalk
        if status.haveUndo && disconnects pindexWalk then
          invalidateTips pindex disconnects marked rest
        else ({ marked with chainActive := pindexWalk :: rest }, false)
      else ({ tree with chainActive := pindexWalk :: rest }, true)

def offerIfValid (tree : BlockTree) (p : BlockPtr) : BlockTree :=
  if (tree.entry p).nStatus.isValid BLOCK_VALID_TRANSACTIONS && tree.linked p then tree.offerBlock p
  else tree

/-- InvalidateBlock; without a tip left the comparison and InvalidChainFound have nothing to read. -/
def invalidateBlock (pindex : BlockPtr) (disconnects : BlockPtr → Bool) :
    Option (BlockTree × Bool) :=
  let status := (tree.entry pindex).nStatus
  let marked := (tree.setStatus pindex { status with failedValid := true }).eraseCandidate pindex
  match invalidateTips pindex disconnects marked marked.chainActive with
  | (next, false) => some (next, false)
  | (next, true) =>
      if next.chainActive.isEmpty then none
      else some (next.mapBlockIndex.foldl offerIfValid next, true)

def clearFailed (p : BlockPtr) : BlockTree :=
  let status := (tree.entry p).nStatus
  tree.setStatus p { status with failedValid := false, failedChild := false }

def reconsiderEntry (pindex : BlockPtr) (tree : BlockTree) (p : BlockPtr) : Option BlockTree :=
  if !(tree.entry p).nStatus.isValid BLOCK_VALID_TRANSACTIONS &&
      tree.getAncestor p (tree.height pindex) == some pindex then
    let cleared := tree.clearFailed p
    if (cleared.entry p).nStatus.isValid BLOCK_VALID_TRANSACTIONS && cleared.linked p then
      match cleared.tip with
      | none => none
      | some tip =>
          if cleared.worse tip p then
            some { cleared with setBlockIndexCandidates := cleared.setBlockIndexCandidates.insert p }
          else some cleared
    else some cleared
  else some tree

def clearAncestor (tree : BlockTree) (p : BlockPtr) : BlockTree :=
  if (tree.entry p).nStatus.failed then tree.clearFailed p else tree

def reconsiderBlock (pindex : BlockPtr) : Option BlockTree :=
  (tree.mapBlockIndex.foldlM (reconsiderEntry pindex) tree).map fun next =>
    (next.ancestry pindex).foldl clearAncestor next

end BlockTree

inductive FlagOp
  | invalidateBlock (pindex : BlockPtr) (disconnects : BlockPtr → Bool)
  | reconsiderBlock (pindex : BlockPtr)
  | activateBestChainRound (verdicts : Verdicts)

namespace BlockTree

variable [BlockHasher] (params : CChainParams) (tree : BlockTree)

def flagStep : FlagOp → Option BlockTree
  | .invalidateBlock pindex disconnects =>
      if pindex ∈ tree.mapBlockIndex then (tree.invalidateBlock pindex disconnects).map Prod.fst
      else none
  | .reconsiderBlock pindex =>
      if pindex ∈ tree.mapBlockIndex then tree.reconsiderBlock pindex else none
  | .activateBestChainRound verdicts => (tree.activateBestChainRound params verdicts).map Prod.fst

end BlockTree

end CryptoYen
