import CryptoYen.Coins.Compressor
import CryptoYen.Coins.Restore
import CryptoYen.Consensus.CheckTransaction
import CryptoYen.Library.Bitmap

set_option autoImplicit false

namespace CryptoYen

open Codec

-- The variable-length form of a signed number; a negative one is cut to seven bits.
def writeVarInt (n : Int) : List UInt8 :=
  if n ≤ 0x7f then [UInt8.ofNat (n % 128).toNat] else varBytes 0 n.toNat

def readVarInt (bytes : List UInt8) : Except String (Int × List UInt8) := do
  let (n, rest) ← readVarBytes streamFailures 32 0 bytes
  return (Format.ofUnsigned n, rest)

theorem writeVarInt_nonneg (n : Nat) : writeVarInt n = varBytes 0 n := by
  rw [writeVarInt]
  split
  next small =>
    rw [varBytes, if_pos (by omega), show ((n : Int) % 128).toNat = n + 0 by omega]
  next => rfl

theorem readVarInt_write (n : Int) (bounds : 0 ≤ n ∧ n < 2 ^ 31) (rest : List UInt8) :
    readVarInt (writeVarInt n ++ rest) = .ok (n, rest) := by
  obtain ⟨value, rfl⟩ := Int.eq_ofNat_of_zero_le bounds.1
  have code := readVarBytes_varBytes streamFailures 32 0 value (.inl rfl) (by omega) rest
  rw [if_pos rfl] at code
  have same : Format.ofUnsigned value = value := by
    rw [Format.ofUnsigned, if_pos (by omega)]
  rw [writeVarInt_nonneg, readVarInt, code]
  simp only [bind, Except.bind, same]
  rfl

theorem writeVarInt_negative (n : Int) (negative : n < 0) :
    writeVarInt n = writeVarInt (n % 128) := by
  rw [writeVarInt, if_pos (by omega), writeVarInt, if_pos (by omega), Int.emod_emod]

theorem readVarInt_negative (n : Int) (negative : n < 0) (rest : List UInt8) :
    readVarInt (writeVarInt n ++ rest) = .ok (n % 128, rest) := by
  rw [writeVarInt_negative n negative, readVarInt_write (n % 128) (by omega) rest]

namespace CTxOutCompressor

variable [PubKeys]

-- The amount is handed over as an unsigned number.
def serialize (txout : CTxOut) : List UInt8 :=
  varBytes 0 (compressAmount (txout.nValue % 2 ^ 64).toNat) ++
    CScriptCompressor.serialize txout.scriptPubKey

def unserialize (bytes : List UInt8) : Except String (CTxOut × List UInt8) := do
  let (nVal, bytes) ← readVarBytes streamFailures 64 0 bytes
  let (scriptPubKey, rest) ← CScriptCompressor.unserialize bytes
  let nValue := decompressAmount nVal
  return (⟨if nValue < 2 ^ 63 then (nValue : Int) else (nValue : Int) - 2 ^ 64, scriptPubKey⟩, rest)

theorem txout_back (inverts : PubKeys.Inverts) (txout : CTxOut)
    (amount : 0 ≤ txout.nValue ∧ txout.nValue < 2 ^ 60)
    (short : txout.scriptPubKey.length + CScriptCompressor.nSpecialScripts < 2 ^ 32)
    (rest : List UInt8) : unserialize (serialize txout ++ rest) = .ok (txout, rest) := by
  obtain ⟨nValue, scriptPubKey⟩ := txout
  obtain ⟨value, rfl⟩ := Int.eq_ofNat_of_zero_le amount.1
  dsimp only at amount short
  obtain ⟨fits, back⟩ := decompress_compress value (by omega)
  have handed : ((value : Int) % 2 ^ 64).toNat = value := by omega
  have code := readVarBytes_varBytes streamFailures 64 0 (compressAmount value) (.inl rfl) fits
    (CScriptCompressor.serialize scriptPubKey ++ rest)
  rw [if_pos rfl] at code
  rw [serialize, handed, List.append_assoc, unserialize, code]
  simp only [bind, Except.bind,
    CScriptCompressor.script_back inverts scriptPubKey short rest, back]
  rw [if_pos (by omega)]
  rfl

end CTxOutCompressor

namespace CCoins

variable (coins : CCoins)

-- The flags of the mask; the first two outputs have theirs in the header.
def maskFlags (i : Nat) : Bool := coins.isAvailable (2 + i)

def maskBlocks : Nat := (coins.vout.length - 2 + 7) / 8

def calcMaskSize : Nat × Nat := Bitmap.measure coins.maskFlags coins.maskBlocks

def fFirst : Bool := coins.isAvailable 0

def fSecond : Bool := coins.isAvailable 1

def hasOutput : Bool := coins.fFirst || coins.fSecond || coins.calcMaskSize.2 != 0

def headerFlags : Nat :=
  coins.fCoinBase.toNat + 2 * coins.fCoinStake.toNat + 4 * coins.fFirst.toNat +
    8 * coins.fSecond.toNat

-- Without the first two outputs the mask has a byte more than its code says.
def nMaskCode : Nat := coins.calcMaskSize.2 - if coins.fFirst || coins.fSecond then 0 else 1

def headerCode (scale : Nat) : Nat := (scale * coins.nMaskCode + coins.headerFlags) % 2 ^ 32

section Stream

variable [PubKeys]

def serialize : Option (List UInt8) :=
  if coins.hasOutput then
    some (writeVarInt coins.nVersion ++ (varBytes 0 (coins.headerCode 16) ++
      (Bitmap.mask coins.maskFlags coins.calcMaskSize.1 ++
        ((coins.vout.flatMap fun txout =>
            if txout.isNull then [] else CTxOutCompressor.serialize txout) ++
          writeVarInt coins.nHeight))))
  else none

def readOutputs : List Bool → List UInt8 → Except String (List CTxOut × List UInt8)
  | [], bytes => .ok ([], bytes)
  | fAvail :: vAvail, bytes => do
      let (txout, bytes) ←
        if fAvail then CTxOutCompressor.unserialize bytes else .ok (CTxOut.null, bytes)
      let (vout, rest) ← readOutputs vAvail bytes
      return (txout :: vout, rest)

def unserialize (bytes : List UInt8) : Except String (CCoins × List UInt8) := do
  let (nVersion, bytes) ← readVarInt bytes
  let (nCode, bytes) ← readVarBytes streamFailures 32 0 bytes
  let nMaskCode := nCode / 16 + if nCode.testBit 2 || nCode.testBit 3 then 0 else 1
  let (vAvail, bytes) ← Bitmap.readMask streamFailures.endOfData nMaskCode bytes
  let (vout, bytes) ← readOutputs (nCode.testBit 2 :: nCode.testBit 3 :: vAvail) bytes
  let (nHeight, rest) ← readVarInt bytes
  return (cleanup
    { fCoinBase := nCode.testBit 0
      fCoinStake := nCode.testBit 1
      vout := vout
      nHeight := nHeight.toNat
      nVersion := nVersion }, rest)

end Stream

def blanked : CCoins :=
  { coins with vout := coins.vout.map fun txout => if txout.isNull then CTxOut.null else txout }

theorem blanked_of_blank (blank : coins.Blank) : coins.blanked = coins := by
  have same : (coins.vout.map fun txout => if txout.isNull then CTxOut.null else txout) =
      coins.vout := by
    refine (List.map_congr_left fun txout member => ?_).trans (List.map_id _)
    split
    next isNull => exact (blank txout member isNull).symm
    next => rfl
  rw [blanked, same]

/-- A record as it is handed to the coins database: with the sizes that its 32-bit counters hold. -/
structure Storable (params : CChainParams) : Prop where
  unpruned : coins.isPruned = false
  clean : coins.Clean
  version : 0 ≤ coins.nVersion ∧ coins.nVersion < 2 ^ 31
  height : coins.nHeight < 2 ^ 31
  outputs : coins.vout.length + 5 < 2 ^ 31
  amounts : ∀ txout ∈ coins.vout, txout.isNull = false → moneyRange params txout.nValue = true
  scripts : ∀ txout ∈ coins.vout,
    txout.scriptPubKey.length + CScriptCompressor.nSpecialScripts < 2 ^ 32

section header

theorem headerFlags_lt : coins.headerFlags < 16 := by
  rw [headerFlags]
  cases coins.fCoinBase <;> cases coins.fCoinStake <;> cases coins.fFirst <;>
    cases coins.fSecond <;> decide

theorem headerFlags_bits :
    coins.headerFlags.testBit 0 = coins.fCoinBase ∧
      coins.headerFlags.testBit 1 = coins.fCoinStake ∧
      coins.headerFlags.testBit 2 = coins.fFirst ∧
      coins.headerFlags.testBit 3 = coins.fSecond := by
  rw [headerFlags]
  cases coins.fCoinBase <;> cases coins.fCoinStake <;> cases coins.fFirst <;>
    cases coins.fSecond <;> decide

theorem calcMaskSize_le : coins.calcMaskSize.2 ≤ coins.maskBlocks := by
  have spec := Bitmap.measure_spec coins.maskFlags coins.maskBlocks
  have counted := spec.counted
  have inside := spec.inside
  have le := List.countP_le_length (p := Bitmap.used coins.maskFlags)
    (l := List.range coins.calcMaskSize.1)
  rw [List.length_range] at le
  exact counted.le.trans (le.trans inside)

theorem headerCode_eq (few : coins.vout.length + 5 < 2 ^ 31) :
    coins.headerCode 16 = 2 ^ 4 * coins.nMaskCode + coins.headerFlags ∧
      coins.headerCode 16 < 2 ^ 32 := by
  have flags := coins.headerFlags_lt
  have counted := coins.calcMaskSize_le
  have code : coins.nMaskCode ≤ coins.calcMaskSize.2 := Nat.sub_le _ _
  rw [maskBlocks] at counted
  have small : 16 * coins.nMaskCode + coins.headerFlags < 2 ^ 32 := by omega
  rw [headerCode, Nat.mod_eq_of_lt small]
  exact ⟨rfl, small⟩

theorem headerCode_bit (few : coins.vout.length + 5 < 2 ^ 31) (i : Nat) (low : i < 4) :
    (coins.headerCode 16).testBit i = coins.headerFlags.testBit i := by
  rw [(coins.headerCode_eq few).1, Nat.testBit_two_pow_mul_add _ coins.headerFlags_lt, if_pos low]

theorem calcMaskSize_used (i : Nat) (available : coins.isAvailable (2 + i) = true) :
    i / 8 < coins.calcMaskSize.1 ∧ 0 < coins.calcMaskSize.2 := by
  have spec := Bitmap.measure_spec coins.maskFlags coins.maskBlocks
  have inside : 2 + i < coins.vout.length := by
    by_contra beyond
    rw [isAvailable, List.getElem?_eq_none (by omega)] at available
    cases available
  have isUsed : Bitmap.used coins.maskFlags (i / 8) = true := by
    rw [Bitmap.used, List.any_eq_true]
    refine ⟨i % 8, List.mem_range.mpr (Nat.mod_lt _ (by decide)), ?_⟩
    rw [maskFlags, Nat.div_add_mod]
    exact available
  have reached : i / 8 < coins.calcMaskSize.1 := by
    by_contra beyond
    have unused := spec.behind (i / 8) (by rw [calcMaskSize] at beyond; omega)
      (by rw [maskBlocks]; omega)
    rw [isUsed] at unused
    cases unused
  refine ⟨reached, ?_⟩
  rw [calcMaskSize, spec.counted, List.countP_pos_iff]
  exact ⟨i / 8, List.mem_range.mpr reached, isUsed⟩

theorem hasOutput_of_unpruned (unpruned : coins.isPruned = false) : coins.hasOutput = true := by
  rw [isPruned, List.all_eq_false] at unpruned
  obtain ⟨txout, member, alive⟩ := unpruned
  obtain ⟨nPos, found⟩ := List.mem_iff_getElem?.mp member
  have available : coins.isAvailable nPos = true := by
    rw [isAvailable, found]
    simpa using alive
  rw [hasOutput, Bool.or_eq_true, Bool.or_eq_true, bne_iff_ne]
  rcases nPos with _ | _ | i
  · exact .inl (.inl available)
  · exact .inl (.inr available)
  · have counted := (coins.calcMaskSize_used i (by rwa [Nat.add_comm])).2
    exact .inr (by omega)

theorem nMaskCode_back (output : coins.hasOutput = true) :
    (coins.nMaskCode + if coins.fFirst || coins.fSecond then 0 else 1) = coins.calcMaskSize.2 := by
  rw [hasOutput, Bool.or_eq_true, bne_iff_ne] at output
  rw [nMaskCode]
  split
  next => rfl
  next neither =>
    have positive := output.resolve_left neither
    omega

end header

section outputs

theorem vAvail_eq (size : Nat) (covers : coins.vout.length ≤ size + 2) :
    coins.fFirst :: coins.fSecond :: (List.range size).map coins.maskFlags =
      (coins.vout.map fun txout => !txout.isNull) ++
        List.replicate (size + 2 - coins.vout.length) false := by
  have indexed : coins.fFirst :: coins.fSecond :: (List.range size).map coins.maskFlags =
      (List.range (size + 2)).map coins.isAvailable := by
    rw [List.range_succ_eq_map, List.range_succ_eq_map, List.map_cons, List.map_cons,
      List.map_cons, List.map_map, List.map_map]
    refine congrArg (coins.fFirst :: coins.fSecond :: ·) (List.map_congr_left fun i _ => ?_)
    rw [maskFlags, Nat.add_comm]
    rfl
  rw [indexed]
  apply List.ext_getElem
  · rw [List.length_map, List.length_range, List.length_append, List.length_map,
      List.length_replicate]
    omega
  · intro i _ _
    rw [List.getElem_map, List.getElem_range, isAvailable]
    by_cases inside : i < coins.vout.length
    · rw [List.getElem_append_left (by rwa [List.length_map]), List.getElem_map,
        List.getElem?_eq_getElem inside]
    · rw [List.getElem_append_right (by rw [List.length_map]; omega), List.getElem_replicate,
        List.getElem?_eq_none (by omega)]

variable [PubKeys]

theorem readOutputs_write (inverts : PubKeys.Inverts) (vout : List CTxOut) (padding : Nat)
    (amounts : ∀ txout ∈ vout, txout.isNull = false → 0 ≤ txout.nValue ∧ txout.nValue < 2 ^ 60)
    (scripts : ∀ txout ∈ vout,
      txout.scriptPubKey.length + CScriptCompressor.nSpecialScripts < 2 ^ 32)
    (rest : List UInt8) :
    readOutputs ((vout.map fun txout => !txout.isNull) ++ List.replicate padding false)
        ((vout.flatMap fun txout =>
          if txout.isNull then [] else CTxOutCompressor.serialize txout) ++ rest) =
      .ok ((vout.map fun txout => if txout.isNull then CTxOut.null else txout) ++
        List.replicate padding CTxOut.null, rest) := by
  induction vout with
  | nil =>
      rw [List.map_nil, List.map_nil, List.flatMap_nil, List.nil_append, List.nil_append,
        List.nil_append]
      induction padding with
      | zero => rfl
      | succ padding ih =>
          rw [List.replicate_succ, readOutputs]
          simp only [bind, Except.bind, ih]
          rfl
  | cons txout vout ih =>
      rw [List.forall_mem_cons] at amounts scripts
      have later := ih amounts.2 scripts.2
      rw [List.map_cons, List.map_cons, List.flatMap_cons, List.cons_append, List.append_assoc,
        readOutputs]
      cases isNull : txout.isNull with
      | true =>
          simp only [Bool.not_true, Bool.false_eq_true, if_false, if_true, List.nil_append, bind,
            Except.bind, later]
          rfl
      | false =>
          simp only [Bool.not_false, Bool.false_eq_true, if_false, if_true, bind, Except.bind,
            CTxOutCompressor.txout_back inverts txout (amounts.1 isNull) scripts.1,
            later]
          rfl

end outputs

section roundTrip

theorem mask_covers (clean : coins.Clean) :
    coins.vout.length ≤ 8 * coins.calcMaskSize.1 + 2 := by
  by_contra longer
  have fixed : coins.vout.rdropWhile CTxOut.isNull = coins.vout := congrArg vout clean
  have nonempty : coins.vout ≠ [] := by
    intro none
    simp [none] at longer
  have last := List.rdropWhile_eq_self_iff.mp fixed nonempty
  have available : coins.isAvailable (2 + (coins.vout.length - 3)) = true := by
    have position : 2 + (coins.vout.length - 3) = coins.vout.length - 1 := by omega
    rw [position, isAvailable, ← List.getLast?_eq_getElem?,
      List.getLast?_eq_getLast_of_ne_nil nonempty]
    simpa using last
  have reached := (coins.calcMaskSize_used _ available).1
  omega

theorem rdropWhile_padding (vout : List CTxOut) (padding : Nat) :
    (vout ++ List.replicate padding CTxOut.null).rdropWhile CTxOut.isNull =
      vout.rdropWhile CTxOut.isNull := by
  induction padding with
  | zero => simp
  | succ padding ih =>
      rw [List.replicate_succ', ← List.append_assoc, List.rdropWhile_concat_pos _ _ _ rfl, ih]

theorem cleanup_blanked (clean : coins.Clean) (padding : Nat) :
    cleanup { coins with vout := coins.blanked.vout ++ List.replicate padding CTxOut.null } =
      coins.blanked := by
  have fixed : coins.vout.rdropWhile CTxOut.isNull = coins.vout := congrArg vout clean
  have same : coins.blanked.vout.rdropWhile CTxOut.isNull = coins.blanked.vout := by
    rw [List.rdropWhile_eq_self_iff]
    intro nonempty
    have last := List.rdropWhile_eq_self_iff.mp fixed (by simpa [blanked] using nonempty)
    simp only [blanked, List.getLast_map]
    split
    next isNull => exact absurd isNull last
    next => exact last
  rw [cleanup, rdropWhile_padding, same]
  rfl

/-- Reading back what was written leaves the rest of the stream and gives the same record; of a
spent output only the null output is left, which is all that a spent output ever is. -/
theorem coins_back [PubKeys] (inverts : PubKeys.Inverts) (params : CChainParams)
    (network : params ∈ CChainParams.networks) (storable : coins.Storable params) :
    ∃ bytes, coins.serialize = some bytes ∧
      (∀ rest, unserialize (bytes ++ rest) = .ok (coins.blanked, rest)) ∧
      (coins.Blank → coins.blanked = coins) := by
  have output := coins.hasOutput_of_unpruned storable.unpruned
  have limit := networks_nMaxMoneyOut params network
  have amounts (txout : CTxOut) (member : txout ∈ coins.vout) (alive : txout.isNull = false) :
      0 ≤ txout.nValue ∧ txout.nValue < 2 ^ 60 := by
    have inRange := storable.amounts txout member alive
    simp only [moneyRange, Bool.and_eq_true, decide_eq_true_eq] at inRange
    exact ⟨inRange.1, by omega⟩
  obtain ⟨code, small⟩ := coins.headerCode_eq storable.outputs
  have bit := coins.headerCode_bit storable.outputs
  obtain ⟨coinBase, coinStake, first, second⟩ := coins.headerFlags_bits
  rw [serialize, if_pos output]
  refine ⟨_, rfl, fun rest => ?_, coins.blanked_of_blank⟩
  have header := readVarBytes_varBytes streamFailures 32 0 (coins.headerCode 16) (.inl rfl) small
  have quotient : coins.headerCode 16 / 16 = coins.nMaskCode := by
    have flags := coins.headerFlags_lt
    omega
  have covers := coins.mask_covers storable.clean
  have outputs := readOutputs_write inverts coins.vout
    (8 * coins.calcMaskSize.1 + 2 - coins.vout.length) amounts storable.scripts
  rw [← coins.vAvail_eq (8 * coins.calcMaskSize.1) covers] at outputs
  have height := readVarInt_write coins.nHeight (by have bound := storable.height; omega)
  simp only [List.append_assoc, unserialize, bind, Except.bind,
    readVarInt_write coins.nVersion storable.version, header, if_true, quotient, bit 0 (by decide),
    bit 1 (by decide), bit 2 (by decide), bit 3 (by decide), coinBase, coinStake, first, second,
    coins.nMaskCode_back output]
  have mask (rest : List UInt8) : Bitmap.readMask streamFailures.endOfData coins.calcMaskSize.2
      (Bitmap.mask coins.maskFlags coins.calcMaskSize.1 ++ rest) =
      .ok ((List.range (8 * coins.calcMaskSize.1)).map coins.maskFlags, rest) :=
    Bitmap.readMask_mask coins.maskFlags _ coins.maskBlocks rest
  simp only [mask, outputs, height, Int.toNat_natCast]
  exact congrArg (fun read => Except.ok (read, rest)) (coins.cleanup_blanked storable.clean _)

end roundTrip

end CCoins

@[reducible] def noUncompressedKeys : PubKeys := ⟨fun _ => false, fun _ => none⟩

def gappedCoins : CCoins where
  fCoinBase := false
  fCoinStake := true
  vout :=
    ⟨150000000, [OP_DUP, OP_HASH160, 20] ++ (List.replicate 20 7 ++ [OP_EQUALVERIFY, OP_CHECKSIG])⟩ ::
      List.replicate 10 CTxOut.null ++ [⟨1, [1, 2, 3]⟩]
  nHeight := 203998
  nVersion := 1

theorem gappedCoins_back :
    ∃ bytes, @CCoins.serialize gappedCoins noUncompressedKeys = some bytes ∧
      (∀ rest, @CCoins.unserialize noUncompressedKeys (bytes ++ rest) =
        .ok (gappedCoins.blanked, rest)) ∧
      (gappedCoins.Blank → gappedCoins.blanked = gappedCoins) :=
  @CCoins.coins_back gappedCoins noUncompressedKeys
    (fun _ _ valid => by cases valid) CChainParams.mainParams List.mem_cons_self
    { unpruned := by decide
      clean := (by decide : gappedCoins.cleanup = gappedCoins)
      version := by decide
      height := by decide
      outputs := by decide
      amounts := by decide
      scripts := by decide }

end CryptoYen
