import CryptoYen.Coins.UndoRecord

set_option autoImplicit false

namespace CryptoYen

-- CHashWriter: double SHA-256 of all that is written into it.
class HashWriter where
  getHash : List UInt8 → Uint256

namespace CBlockUndo

variable [PubKeys]

def txInUndo : Codec String CTxInUndo where
  write := CTxInUndo.serialize
  read := CTxInUndo.unserialize .null
  Typed undo :=
    PubKeys.Inverts ∧ undo.Sized ∧ 0 ≤ undo.txout.nValue ∧ undo.txout.nValue < 2 ^ 60
  Fits _ := True
  back := CTxInUndo.back
  read_fits _ typed _ rest := typed.2.1.read typed.1 typed.2.2 rest
  read_unfit _ _ unfit := absurd trivial unfit

def format : Codec String (List CTxUndo) := Format.vector (Format.vector txInUndo)

theorem format_back (vtxundo : List CTxUndo) :
    format.back vtxundo = vtxundo.map (List.map CTxInUndo.back) := rfl

theorem format_write_back (vtxundo : List CTxUndo) :
    format.write (format.back vtxundo) = format.write vtxundo :=
  Codec.list_write_back streamFailures MAX_SIZE _
    (Codec.list_write_back streamFailures MAX_SIZE txInUndo CTxInUndo.serialize_back) vtxundo

variable [HashWriter]

def checksum (hashBlock : Uint256) (vtxundo : List CTxUndo) : Uint256 :=
  HashWriter.getHash (Format.uint256.write hashBlock ++ format.write vtxundo)

-- WriteToDisk behind the index header
def writeToDisk (hashBlock : Uint256) (vtxundo : List CTxUndo) : List UInt8 :=
  format.write vtxundo ++ Format.uint256.write (checksum hashBlock vtxundo)

-- ReadFromDisk of a file from the undo position on
def readFromDisk (file : List UInt8) (hashBlock : Uint256) : Option (List CTxUndo) :=
  match (format.pair Format.uint256).read file with
  | .error _ => none
  | .ok ((vtxundo, hashChecksum), _) =>
      -- Verify checksum
      if hashChecksum = checksum hashBlock vtxundo then some vtxundo else none

theorem readFromDisk_writeToDisk (hashBlock : Uint256) (vtxundo : List CTxUndo)
    (typed : format.Typed vtxundo) (fits : format.Fits vtxundo) (rest : List UInt8) :
    readFromDisk (writeToDisk hashBlock vtxundo ++ rest) hashBlock =
      some (vtxundo.map (List.map CTxInUndo.back)) := by
  have read := (format.pair Format.uint256).read_fits (vtxundo, checksum hashBlock vtxundo)
    ⟨typed, Format.uint256_typed _⟩ ⟨fits, trivial⟩ rest
  have written : (format.pair Format.uint256).write (vtxundo, checksum hashBlock vtxundo) =
      writeToDisk hashBlock vtxundo := rfl
  have back : (format.pair Format.uint256).back (vtxundo, checksum hashBlock vtxundo) =
      (format.back vtxundo, checksum hashBlock vtxundo) :=
    congrArg (format.back vtxundo, ·) (Format.uint256_back _)
  have same : checksum hashBlock (format.back vtxundo) = checksum hashBlock vtxundo := by
    rw [checksum, checksum, format_write_back]
  rw [written, back] at read
  simp only [readFromDisk, read]
  rw [same, if_pos rfl, format_back]

end CBlockUndo

end CryptoYen
