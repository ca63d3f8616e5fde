import CryptoYen.Coins.SerializeSize

set_option autoImplicit false

namespace CryptoYen

open Codec

namespace CTxInUndo

def null : CTxInUndo := ⟨CTxOut.null, false, false, 0, 0⟩

variable [PubKeys] (undo : CTxInUndo)

def nCode : Nat :=
  (undo.nHeight * 4 + (if undo.fCoinBase then 2 else 0) + (if undo.fCoinStake then 1 else 0)) %
    2 ^ 32

def serialize : List UInt8 :=
  varBytes 0 undo.nCode ++
    ((if 0 < undo.nHeight then writeVarInt undo.nVersion else []) ++
      CTxOutCompressor.serialize undo.txout)

def getSerializeSize : Nat :=
  (getSizeOfVarInt undo.nCode +
    (if 0 < undo.nHeight then getSizeOfVarIntSigned undo.nVersion else 0) +
      (CTxOutCompressor.serialize undo.txout).length) % 2 ^ 32

-- Without a height the version stays what it was.
def unserialize (undo : CTxInUndo) (bytes : List UInt8) :
    Except String (CTxInUndo × List UInt8) := do
  let (nCode, bytes) ← readVarBytes streamFailures 32 0 bytes
  let nHeight := nCode / 4
  let (nVersion, bytes) ←
    if 0 < nHeight then readVarInt bytes else .ok (undo.nVersion, bytes)
  let (txout, rest) ← CTxOutCompressor.unserialize bytes
  return (⟨txout, nCode / 2 % 2 == 1, nCode % 2 == 1, nHeight, nVersion⟩, rest)

/-- What Spend records: a version with a height, an amount that is money, and a script that a
transaction can have. -/
structure Recorded (params : CChainParams) : Prop where
  height : undo.nHeight < 2 ^ 30
  version : 0 ≤ undo.nVersion ∧ undo.nVersion < 2 ^ 31
  unversioned : undo.nHeight = 0 → undo.nVersion = 0
  amount : moneyRange params undo.txout.nValue = true
  script : undo.txout.scriptPubKey.length ≤ MAX_SIZE

end CTxInUndo

section size

variable [PubKeys]

theorem CScriptCompressor.compress_length (script : CScript) (compr : List UInt8)
    (compressed : compress script = some compr) : compr.length ≤ 33 := by
  rw [compress] at compressed
  split at compressed
  next keyID isKey =>
    have length := (isToKeyID_some script keyID isKey).1
    rw [Option.some.injEq] at compressed
    rw [← compressed, List.length_cons, length]
    decide
  next =>
    split at compressed
    next scriptID isScript =>
      have length := (isToScriptID_some script scriptID isScript).1
      rw [Option.some.injEq] at compressed
      rw [← compressed, List.length_cons, length]
      decide
    next =>
      obtain ⟨pubkey, _, key⟩ := Option.bind_eq_some_iff.mp compressed
      cases pubkey with
      | nil => cases key
      | cons header body =>
          have short := List.length_take_le 32 body
          rw [compressKey] at key
          split at key
          next =>
            rw [Option.some.injEq] at key
            rw [← key, List.length_cons]
            omega
          next =>
            split at key
            next =>
              rw [Option.some.injEq] at key
              rw [← key, List.length_cons]
              omega
            next => cases key

theorem CScriptCompressor.serialize_length (script : CScript) :
    (CScriptCompressor.serialize script).length ≤ script.length + 33 := by
  rw [serialize]
  split
  next compr compressed =>
    have short := compress_length script compr compressed
    omega
  next =>
    have size := (getSizeOfVarInt_le_iff 5 ((script.length + nSpecialScripts) % 2 ^ 32)).mpr
      (Nat.lt_trans (Nat.mod_lt _ (by decide)) (by decide))
    rw [List.length_append, varBytes_length]
    omega

theorem CTxOutCompressor.serialize_length (txout : CTxOut) :
    (CTxOutCompressor.serialize txout).length ≤ txout.scriptPubKey.length + 43 := by
  have code : compressAmount (txout.nValue % 2 ^ 64).toNat < 2 ^ 64 := by
    rw [compressAmount]
    split
    · decide
    · dsimp only
      split <;> exact Nat.mod_lt _ (by decide)
  have size := (getSizeOfVarInt_le_iff 10 _).mpr (Nat.lt_trans code (by decide))
  have script := CScriptCompressor.serialize_length txout.scriptPubKey
  rw [serialize, List.length_append, varBytes_length]
  omega

end size

namespace CTxInUndo

variable [PubKeys] (undo : CTxInUndo)

omit [PubKeys] in
theorem nCode_eq (height : undo.nHeight < 2 ^ 30) :
    undo.nCode = undo.nHeight * 4 + 2 * undo.fCoinBase.toNat + undo.fCoinStake.toNat ∧
      undo.nCode < 2 ^ 32 := by
  have fits : undo.nCode =
      undo.nHeight * 4 + 2 * undo.fCoinBase.toNat + undo.fCoinStake.toNat := by
    rw [nCode]
    cases undo.fCoinBase <;> cases undo.fCoinStake <;>
      simp only [Bool.false_eq_true, if_false, if_true, Bool.toNat_false, Bool.toNat_true] <;> omega
  have coinBase := Bool.toNat_le undo.fCoinBase
  have coinStake := Bool.toNat_le undo.fCoinStake
  exact ⟨fits, by omega⟩

omit [PubKeys] in
theorem nCode_parts (height : undo.nHeight < 2 ^ 30) :
    undo.nCode / 4 = undo.nHeight ∧ (undo.nCode / 2 % 2 == 1) = undo.fCoinBase ∧
      (undo.nCode % 2 == 1) = undo.fCoinStake := by
  rw [(undo.nCode_eq height).1]
  refine ⟨?_, ?_, ?_⟩
  · have coinBase := Bool.toNat_le undo.fCoinBase
    have coinStake := Bool.toNat_le undo.fCoinStake
    omega
  · have half : (undo.nHeight * 4 + 2 * undo.fCoinBase.toNat + undo.fCoinStake.toNat) / 2 % 2 =
        undo.fCoinBase.toNat := by
      have coinBase := Bool.toNat_le undo.fCoinBase
      have coinStake := Bool.toNat_le undo.fCoinStake
      omega
    rw [half]
    cases undo.fCoinBase <;> rfl
  · have low : (undo.nHeight * 4 + 2 * undo.fCoinBase.toNat + undo.fCoinStake.toNat) % 2 =
        undo.fCoinStake.toNat := by
      have coinStake := Bool.toNat_le undo.fCoinStake
      omega
    rw [low]
    cases undo.fCoinStake <;> rfl

theorem serialize_length :
    undo.serialize.length = getSizeOfVarInt undo.nCode +
      (if 0 < undo.nHeight then getSizeOfVarIntSigned undo.nVersion else 0) +
        (CTxOutCompressor.serialize undo.txout).length := by
  rw [serialize, List.length_append, List.length_append, varBytes_length]
  split
  next => rw [writeVarInt_length, Nat.add_assoc]
  next => rw [List.length_nil, Nat.add_assoc]

variable {undo} {params : CChainParams}

theorem Recorded.size (recorded : undo.Recorded params) :
    undo.getSerializeSize = undo.serialize.length := by
  have code := (getSizeOfVarInt_le_iff 5 undo.nCode).mpr
    (Nat.lt_trans (undo.nCode_eq recorded.height).2 (by decide))
  have version : getSizeOfVarIntSigned undo.nVersion ≤ 5 := by
    have bounds := recorded.version
    rw [getSizeOfVarIntSigned]
    split
    next => decide
    next => exact (getSizeOfVarInt_le_iff 5 _).mpr (Nat.lt_trans (by omega) (by decide : 2 ^ 31 < _))
  have txout := CTxOutCompressor.serialize_length undo.txout
  have script := recorded.script
  have total : getSizeOfVarInt undo.nCode +
      (if 0 < undo.nHeight then getSizeOfVarIntSigned undo.nVersion else 0) +
        (CTxOutCompressor.serialize undo.txout).length < 2 ^ 32 := by
    rw [MAX_SIZE] at script
    split <;> omega
  rw [serialize_length, getSerializeSize, Nat.mod_eq_of_lt total]

theorem Sized.read (sized : undo.Sized) (inverts : PubKeys.Inverts)
    (amount : 0 ≤ undo.txout.nValue ∧ undo.txout.nValue < 2 ^ 60) (rest : List UInt8) :
    unserialize null (undo.serialize ++ rest) = .ok (undo.back, rest) := by
  have short : undo.txout.scriptPubKey.length + CScriptCompressor.nSpecialScripts < 2 ^ 32 := by
    have script := sized.script
    rw [MAX_SIZE] at script
    rw [CScriptCompressor.nSpecialScripts]
    omega
  have txout := CTxOutCompressor.txout_back inverts undo.txout amount short rest
  have code (more : List UInt8) := readVarBytes_varBytes streamFailures 32 0 undo.nCode (.inl rfl)
    (undo.nCode_eq sized.height).2 more
  obtain ⟨height, coinBase, coinStake⟩ := undo.nCode_parts sized.height
  simp only [serialize, unserialize, List.append_assoc, code, if_true, bind, Except.bind, height,
    coinBase, coinStake]
  by_cases versioned : 0 < undo.nHeight
  · rw [if_pos versioned, if_pos versioned, back, if_neg (by omega)]
    by_cases negative : undo.nVersion < 0
    · rw [readVarInt_negative undo.nVersion negative, if_pos negative]
      simp only [txout]
      rfl
    · have bounds := sized.version
      rw [readVarInt_write undo.nVersion (by omega), if_neg negative]
      simp only [txout]
      rfl
  · rw [if_neg versioned, if_neg versioned, List.nil_append, back, if_pos (by omega)]
    simp only [txout]
    rfl

theorem serialize_back (undo : CTxInUndo) : undo.back.serialize = undo.serialize := by
  have code : undo.back.nCode = undo.nCode := rfl
  have height : undo.back.nHeight = undo.nHeight := rfl
  have txout : undo.back.txout = undo.txout := rfl
  rw [serialize, serialize, code, height, txout]
  by_cases versioned : 0 < undo.nHeight
  · have version : writeVarInt undo.back.nVersion = writeVarInt undo.nVersion := by
      rw [back, if_neg (by omega)]
      split
      next negative => rw [writeVarInt_negative undo.nVersion negative]
      next => rfl
    rw [if_pos versioned, if_pos versioned, version]
  · rw [if_neg versioned, if_neg versioned]

omit [PubKeys] in
theorem Recorded.sized (recorded : undo.Recorded params) : undo.Sized := by
  have bounds := recorded.version
  exact ⟨recorded.height, ⟨by omega, by omega⟩, recorded.script⟩

omit [PubKeys] in
theorem Recorded.back_eq (recorded : undo.Recorded params) : undo.back = undo := by
  have nonNegative := recorded.version.1
  have version : undo.back.nVersion = undo.nVersion := by
    rw [back]
    split
    next unversioned => exact (recorded.unversioned unversioned).symm
    next => rw [if_neg (by omega)]
  calc undo.back = { undo with nVersion := undo.back.nVersion } := rfl
    _ = undo := by rw [version]

omit [PubKeys] in
theorem amount_bounds (network : params ∈ CChainParams.networks)
    (amount : moneyRange params undo.txout.nValue = true) :
    0 ≤ undo.txout.nValue ∧ undo.txout.nValue < 2 ^ 60 := by
  have limit := CCoins.networks_nMaxMoneyOut params network
  simp only [moneyRange, Bool.and_eq_true, decide_eq_true_eq] at amount
  exact ⟨amount.1, by omega⟩

theorem Recorded.read (recorded : undo.Recorded params) (inverts : PubKeys.Inverts)
    (network : params ∈ CChainParams.networks) (rest : List UInt8) :
    unserialize null (undo.serialize ++ rest) = .ok (undo, rest) := by
  have read := recorded.sized.read inverts (amount_bounds network recorded.amount) rest
  rwa [recorded.back_eq] at read

/-- The record comes back, with the rest of the stream, and its announced size is the one that is
written. -/
theorem undo_back (inverts : PubKeys.Inverts) (network : params ∈ CChainParams.networks)
    (recorded : undo.Recorded params) :
    (∀ rest, unserialize null (undo.serialize ++ rest) = .ok (undo, rest)) ∧
      undo.getSerializeSize = undo.serialize.length :=
  ⟨recorded.read inverts network, recorded.size⟩

end CTxInUndo

def stakeUndo : CTxInUndo where
  txout := ⟨250000000, [OP_HASH160, 20] ++ (List.replicate 20 9 ++ [OP_EQUAL])⟩
  fCoinBase := false
  fCoinStake := true
  nHeight := 2 ^ 30 - 1
  nVersion := 2 ^ 31 - 1

theorem stakeUndo_back :
    (∀ rest, @CTxInUndo.unserialize noUncompressedKeys CTxInUndo.null
        (@CTxInUndo.serialize noUncompressedKeys stakeUndo ++ rest) = .ok (stakeUndo, rest)) ∧
      @CTxInUndo.getSerializeSize noUncompressedKeys stakeUndo =
        (@CTxInUndo.serialize noUncompressedKeys stakeUndo).length :=
  @CTxInUndo.undo_back noUncompressedKeys stakeUndo CChainParams.mainParams
    (fun _ _ valid => by cases valid) List.mem_cons_self
    { height := by decide
      version := by decide
      unversioned := by decide
      amount := by decide
      script := by decide }

end CryptoYen
