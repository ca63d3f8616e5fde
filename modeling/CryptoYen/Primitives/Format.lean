import CryptoYen.Library.Codec
import CryptoYen.Primitives.Transaction

set_option autoImplicit false

namespace CryptoYen

def MAX_SIZE : Nat := 0x02000000

def CLIENT_VERSION : Nat := 5010800

def streamFailures : Failures String where
  endOfData := "CDataStream::read() : end of data"
  nonCanonical := "non-canonical ReadCompactSize()"
  tooLarge := "ReadCompactSize() : size too large"

namespace Format

def uint32 : Codec String Nat := .nat streamFailures 4

abbrev Int32 (n : Int) : Prop := -0x80000000 ≤ n ∧ n < 0x80000000

def toUnsigned (n : Int) : Nat := (n % 0x100000000).toNat

def ofUnsigned (n : Nat) : Int := if n < 0x80000000 then n else n - 0x100000000

theorem ofUnsigned_toUnsigned (n : Int) (typed : Int32 n) : ofUnsigned (toUnsigned n) = n := by
  obtain ⟨low, high⟩ := typed
  have value : toUnsigned n = (n % 0x100000000).toNat := rfl
  unfold ofUnsigned
  split <;> omega

def int32 : Codec String Int :=
  let wrapped := uint32.via toUnsigned ofUnsigned
  { wrapped with
    Typed := Int32
    back := id
    read_fits := by
      intro n typed fits rest
      have small : toUnsigned n < 256 ^ 4 := by
        have low := Int.emod_lt_of_pos n (show (0 : Int) < 0x100000000 by decide)
        simp only [toUnsigned]
        omega
      rw [wrapped.read_fits n small fits rest]
      exact congrArg (fun back => Except.ok (back, rest)) (ofUnsigned_toUnsigned n typed)
    read_unfit := fun _ _ unfit => absurd trivial unfit }

def uint256 : Codec String Uint256 :=
  (Codec.nat streamFailures 32).via BitVec.toNat (BitVec.ofNat 256)

def bytes : Codec String (List UInt8) := .blob streamFailures MAX_SIZE

def vector {α : Type} (c : Codec String α) : Codec String (List α) :=
  .list streamFailures MAX_SIZE c

def outPoint : Codec String COutPoint :=
  (uint256.pair uint32).via (fun out => (out.hash, out.n)) fun (hash, n) => ⟨hash, n⟩

def txIn : Codec String CTxIn :=
  (outPoint.pair (bytes.pair uint32)).via
    (fun txin => (txin.prevout, txin.scriptSig, txin.nSequence))
    fun (prevout, scriptSig, nSequence) => ⟨prevout, scriptSig, nSequence⟩

theorem uint256_back (hash : Uint256) : uint256.back hash = hash := by
  simp [uint256, Codec.via, Codec.nat]

theorem bytes_back (script : List UInt8) : bytes.back script = script :=
  Codec.blob_back streamFailures MAX_SIZE script

theorem txIn_back (txin : CTxIn) : txIn.back txin = txin := by
  simp only [txIn, outPoint, Codec.via, Codec.pair, uint256_back, bytes_back]
  rfl

theorem bytes_typed (script : List UInt8) : bytes.Typed script ↔ script.length < 256 ^ 8 := by
  refine and_iff_left fun b _ => ?_
  have bound := b.toNat_lt
  simpa [Codec.byte, Codec.via, Codec.nat] using bound

theorem bytes_fits (script : List UInt8) : bytes.Fits script ↔ script.length ≤ MAX_SIZE :=
  and_iff_left fun _ _ => trivial

theorem uint256_typed (hash : Uint256) : uint256.Typed hash := by
  have bound := hash.isLt
  simpa [uint256, Codec.via, Codec.nat] using bound

end Format

end CryptoYen
