import CryptoYen.Coins.BlockUndo
import CryptoYen.Consensus.Connect

set_option autoImplicit false

namespace CryptoYen

variable [TxHasher]

def disconnectTransaction (nHeight : Nat) (tx : CTransaction) (undo : Option CTxUndo)
    (view : CCoinsView) : Except Failure (CCoinsView × Bool) :=
  let removed := view.removeOutputs tx nHeight
  if tx.isCoinBase then pure removed
  else
    match undo with
    | none => throw .assertion
    | some txundo =>
        if txundo.length ≠ tx.vin.length then
          throw (.error "DisconnectBlock() : transaction and undo data inconsistent")
        else
          let restored := CCoinsView.restoreInputs (tx.vin.zip txundo) removed.1
          pure (restored.1, removed.2 && restored.2)

def disconnectTransactions (nHeight : Nat) :
    List (CTransaction × Option CTxUndo) → CCoinsView → Except Failure (CCoinsView × Bool)
  | [], view => pure (view, true)
  | (tx, undo) :: rest, view => do
      let later ← disconnectTransactions nHeight rest view
      let here ← disconnectTransaction nHeight tx undo later.1
      pure (here.1, later.2 && here.2)

variable [PubKeys] [HashWriter]

/-- DisconnectBlock, for the undo file from GetUndoPos on; there is no undo data for the first
transaction. The flag that it returns is fClean. -/
def disconnectBlock (block : CBlock) (pindex : ConnectIndex) (undoFile : Option (List UInt8))
    (view : CCoinsView) : Except Failure (CCoinsView × Bool) := do
  require (pindex.phashBlock == some view.hashBlock) .assertion
  match undoFile with
  | none => throw (.error "DisconnectBlock() : no undo data available")
  | some file =>
      let pprev ← assertion pindex.pprev.head?
      match CBlockUndo.readFromDisk file pprev.phashBlock with
      | none => throw (.error "DisconnectBlock() : failure reading undo data")
      | some vtxundo =>
          require (vtxundo.length + 1 == block.vtx.length)
            (.error "DisconnectBlock() : block and undo data inconsistent")
          let undone ← disconnectTransactions pindex.nHeight
            (block.vtx.zip (none :: vtxundo.map some)) view
          pure (undone.1.setBestBlock pprev.phashBlock, undone.2)

def Connected.undoFile (result : Connected) (pindex : ConnectIndex) : Option (List UInt8) :=
  result.blockundo.map (CBlockUndo.writeToDisk (hashPrevBlock pindex))

end CryptoYen
