import CryptoYen.Consensus.CheckTransaction
import CryptoYen.Primitives.Format
import CryptoYen.Primitives.Script

set_option autoImplicit false

namespace CryptoYen

open Codec

namespace CTxOutCompressor

def stripZeros : Nat → Nat → Nat → Nat × Nat
  | 0, n, e => (n, e)
  | steps + 1, n, e => if n % 10 = 0 then stripZeros steps (n / 10) (e + 1) else (n, e)

def compressAmount (n : Nat) : Nat :=
  if n = 0 then 0
  else
    let (n, e) := stripZeros 9 n 0
    if e < 9 then (1 + (n / 10 * 9 + n % 10 - 1) * 10 + e) % 2 ^ 64
    else (1 + (n - 1) * 10 + 9) % 2 ^ 64

def scaleAmount : Nat → Nat → Nat
  | 0, n => n
  | e + 1, n => scaleAmount e (n * 10 % 2 ^ 64)

def decompressAmount (x : Nat) : Nat :=
  if x = 0 then 0
  else
    let e := (x - 1) % 10
    let x := (x - 1) / 10
    scaleAmount e (if e < 9 then (x / 9 * 10 + (x % 9 + 1)) % 2 ^ 64 else (x + 1) % 2 ^ 64)

theorem stripZeros_spec (steps n e : Nat) (positive : 0 < n) :
    ∃ zeros, stripZeros steps n e = (n / 10 ^ zeros, e + zeros) ∧ zeros ≤ steps ∧
      n / 10 ^ zeros * 10 ^ zeros = n ∧ (zeros < steps → n / 10 ^ zeros % 10 ≠ 0) := by
  induction steps generalizing n e with
  | zero => exact ⟨0, by simp [stripZeros], Nat.le_refl _, by simp, by simp⟩
  | succ steps ih =>
      by_cases whole : n % 10 = 0
      · obtain ⟨zeros, stripped, within, exact_quotient, last⟩ := ih (n / 10) (e + 1) (by omega)
        rw [Nat.div_div_eq_div_mul, ← Nat.pow_succ'] at stripped exact_quotient last
        refine ⟨zeros + 1, ?_, by omega, ?_, fun below => last (by omega)⟩
        · rw [stripZeros, if_pos whole, stripped, Nat.add_assoc, Nat.add_comm 1]
        · calc n / 10 ^ (zeros + 1) * 10 ^ (zeros + 1)
              = n / 10 ^ (zeros + 1) * 10 ^ zeros * 10 := by rw [Nat.mul_assoc, ← Nat.pow_succ]
            _ = n / 10 * 10 := by rw [exact_quotient]
            _ = n := by omega
      · exact ⟨0, by simp [stripZeros, whole], Nat.zero_le _, by simp, by simpa using whole⟩

theorem scaleAmount_eq (e n : Nat) (fits : n * 10 ^ e < 2 ^ 64) : scaleAmount e n = n * 10 ^ e := by
  induction e generalizing n with
  | zero => simp [scaleAmount]
  | succ e ih =>
      rw [Nat.pow_succ', ← Nat.mul_assoc] at fits
      have step : n * 10 < 2 ^ 64 :=
        Nat.lt_of_le_of_lt (Nat.le_mul_of_pos_right _ (Nat.pow_pos (by decide))) fits
      rw [scaleAmount, Nat.mod_eq_of_lt step, ih _ fits, Nat.pow_succ', ← Nat.mul_assoc]

-- Nine in ten numbers survive the division by ten, so an amount grows by less than a factor of ten.
theorem decompress_compress (n : Nat) (small : n < 2 ^ 60) :
    compressAmount n < 2 ^ 64 ∧ decompressAmount (compressAmount n) = n := by
  by_cases zero : n = 0
  · subst zero
    decide
  · obtain ⟨zeros, stripped, within, whole, last⟩ := stripZeros_spec 9 n 0 (by omega)
    have le := Nat.div_le_self n (10 ^ zeros)
    have positive : n / 10 ^ zeros ≠ 0 := by
      intro isZero
      rw [isZero, Nat.zero_mul] at whole
      exact zero whole.symm
    rw [Nat.zero_add] at stripped
    generalize n / 10 ^ zeros = m at stripped whole last le positive
    have scaled : scaleAmount zeros m = n := by
      rw [scaleAmount_eq zeros m (by omega), whole]
    by_cases fewer : zeros < 9
    · have digit := last fewer
      have code : compressAmount n = 1 + (m / 10 * 9 + m % 10 - 1) * 10 + zeros := by
        rw [compressAmount, if_neg zero, stripped]
        dsimp only
        rw [if_pos fewer]
        exact Nat.mod_eq_of_lt (by omega)
      have exponent : (1 + (m / 10 * 9 + m % 10 - 1) * 10 + zeros - 1) % 10 = zeros := by omega
      have digits : ((1 + (m / 10 * 9 + m % 10 - 1) * 10 + zeros - 1) / 10 / 9 * 10 +
          ((1 + (m / 10 * 9 + m % 10 - 1) * 10 + zeros - 1) / 10 % 9 + 1)) % 2 ^ 64 = m := by
        omega
      rw [code]
      constructor
      · omega
      · rw [decompressAmount, if_neg (by omega)]
        simp only [exponent, if_pos fewer, digits, scaled]
    · have nine : zeros = 9 := by omega
      subst nine
      have code : compressAmount n = 1 + (m - 1) * 10 + 9 := by
        rw [compressAmount, if_neg zero, stripped]
        dsimp only
        rw [if_neg (by decide)]
        exact Nat.mod_eq_of_lt (by omega)
      have exponent : (1 + (m - 1) * 10 + 9 - 1) % 10 = 9 := by omega
      have digits : ((1 + (m - 1) * 10 + 9 - 1) / 10 + 1) % 2 ^ 64 = m := by omega
      rw [code]
      constructor
      · omega
      · rw [decompressAmount, if_neg (by omega)]
        simp only [exponent, if_neg (show ¬ 9 < 9 by decide), digits, scaled]

theorem stripZeros_mul (steps m zeros e : Nat) (within : zeros ≤ steps)
    (last : zeros < steps → m % 10 ≠ 0) :
    stripZeros steps (m * 10 ^ zeros) e = (m, e + zeros) := by
  induction zeros generalizing steps e with
  | zero =>
      rw [Nat.pow_zero, Nat.mul_one, Nat.add_zero]
      cases steps with
      | zero => rfl
      | succ steps => rw [stripZeros, if_neg (last (Nat.succ_pos steps))]
  | succ zeros ih =>
      obtain ⟨more, rfl⟩ := Nat.exists_eq_add_of_lt (Nat.lt_of_lt_of_le (Nat.succ_pos zeros) within)
      have tenfold : m * 10 ^ (zeros + 1) = m * 10 ^ zeros * 10 := by
        rw [Nat.pow_succ, Nat.mul_assoc]
      rw [Nat.zero_add, stripZeros, tenfold, if_pos (Nat.mul_mod_left _ 10),
        Nat.mul_div_cancel _ (by decide), ih more (e + 1) (by omega) fun below => last (by omega)]
      rw [Nat.add_assoc, Nat.add_comm 1]

def codeDigits (x : Nat) : Nat :=
  if (x - 1) % 10 < 9 then (x - 1) / 10 / 9 * 10 + ((x - 1) / 10 % 9 + 1) else (x - 1) / 10 + 1

def codedAmount (x : Nat) : Nat := if x = 0 then 0 else codeDigits x * 10 ^ ((x - 1) % 10)

theorem decompressAmount_eq (x : Nat) (fits : codedAmount x < 2 ^ 64) :
    decompressAmount x = codedAmount x := by
  by_cases zero : x = 0
  · subst zero
    rfl
  · rw [codedAmount, if_neg zero] at fits ⊢
    have digits : codeDigits x < 2 ^ 64 :=
      Nat.lt_of_le_of_lt (Nat.le_mul_of_pos_right _ (Nat.pow_pos (by decide))) fits
    have wrapped : (if (x - 1) % 10 < 9 then
        ((x - 1) / 10 / 9 * 10 + ((x - 1) / 10 % 9 + 1)) % 2 ^ 64
        else ((x - 1) / 10 + 1) % 2 ^ 64) = codeDigits x := by
      rw [← Nat.mod_eq_of_lt digits, codeDigits]
      split <;> rfl
    rw [decompressAmount, if_neg zero]
    simp only [wrapped]
    exact scaleAmount_eq _ _ fits

theorem compress_decompress (x : Nat) (code : x < 2 ^ 64) (fits : codedAmount x < 2 ^ 64) :
    compressAmount (decompressAmount x) = x := by
  rw [decompressAmount_eq x fits]
  by_cases zero : x = 0
  · subst zero
    rfl
  · have positive : 0 < codeDigits x := by
      rw [codeDigits]
      split <;> omega
    have last : (x - 1) % 10 < 9 → codeDigits x % 10 ≠ 0 := by
      intro fewer
      rw [codeDigits, if_pos fewer]
      omega
    have nonzero : codeDigits x * 10 ^ ((x - 1) % 10) ≠ 0 :=
      Nat.ne_of_gt (Nat.mul_pos positive (Nat.pow_pos (by decide)))
    have stripped := stripZeros_mul 9 (codeDigits x) ((x - 1) % 10) 0 (by omega) last
    rw [codedAmount, if_neg zero, compressAmount, if_neg nonzero, stripped]
    simp only [Nat.zero_add]
    by_cases fewer : (x - 1) % 10 < 9
    · rw [if_pos fewer, codeDigits, if_pos fewer]
      have tens (q : Nat) : (q / 9 * 10 + (q % 9 + 1)) / 10 = q / 9 := by omega
      have ones (q : Nat) : (q / 9 * 10 + (q % 9 + 1)) % 10 = q % 9 + 1 := by omega
      rw [tens, ones]
      omega
    · rw [if_neg fewer, codeDigits, if_neg fewer]
      omega

end CTxOutCompressor

class PubKeys where
  isFullyValid : List UInt8 → Bool
  decompress : List UInt8 → Option (List UInt8)

def PubKeys.Inverts [PubKeys] : Prop :=
  ∀ body : List UInt8, body.length = 64 → isFullyValid (4 :: body) = true →
    decompress ((2 + (body.getD 63 0 &&& 1)) :: body.take 32) = some (4 :: body)

namespace CScriptCompressor

def nSpecialScripts : Nat := 6

def isToKeyID (script : CScript) : Option (List UInt8) :=
  if script.length = 25 ∧ script.take 3 = [OP_DUP, OP_HASH160, 20] ∧
      script.drop 23 = [OP_EQUALVERIFY, OP_CHECKSIG] then
    some ((script.drop 3).take 20)
  else none

def isToScriptID (script : CScript) : Option (List UInt8) :=
  if script.length = 23 ∧ script.take 2 = [OP_HASH160, 20] ∧ script.drop 22 = [OP_EQUAL] then
    some ((script.drop 2).take 20)
  else none

def isToPubKey [PubKeys] (script : CScript) : Option (List UInt8) :=
  if script.length = 35 ∧ script.take 1 = [33] ∧ script.drop 34 = [OP_CHECKSIG] ∧
      (script[1]? = some 2 ∨ script[1]? = some 3) then
    some ((script.drop 1).take 33)
  else if script.length = 67 ∧ script.take 1 = [65] ∧ script.drop 66 = [OP_CHECKSIG] ∧
      script[1]? = some 4 then
    let pubkey := (script.drop 1).take 65
    -- An invalid key has no compressed form.
    if PubKeys.isFullyValid pubkey then some pubkey else none
  else none

def compressKey : List UInt8 → Option (List UInt8)
  | [] => none
  | header :: body =>
      if header = 2 ∨ header = 3 then some (header :: body.take 32)
      else if header = 4 then some ((4 ||| (body.getD 63 0 &&& 1)) :: body.take 32)
      else none

def compress [PubKeys] (script : CScript) : Option (List UInt8) :=
  match isToKeyID script with
  | some keyID => some (0 :: keyID)
  | none =>
      match isToScriptID script with
      | some scriptID => some (1 :: scriptID)
      | none => (isToPubKey script).bind compressKey

def getSpecialSize (nSize : Nat) : Nat :=
  if nSize = 0 ∨ nSize = 1 then 20
  else if nSize = 2 ∨ nSize = 3 ∨ nSize = 4 ∨ nSize = 5 then 32
  else 0

def decompress [PubKeys] (nSize : Nat) (data : List UInt8) : Option CScript :=
  match nSize with
  | 0 => some ([OP_DUP, OP_HASH160, 20] ++ (data.take 20 ++ [OP_EQUALVERIFY, OP_CHECKSIG]))
  | 1 => some ([OP_HASH160, 20] ++ (data.take 20 ++ [OP_EQUAL]))
  | 2 => some ([33] ++ (2 :: data.take 32 ++ [OP_CHECKSIG]))
  | 3 => some ([33] ++ (3 :: data.take 32 ++ [OP_CHECKSIG]))
  | 4 => (PubKeys.decompress (2 :: data.take 32)).map fun pubkey => [65] ++ (pubkey ++ [OP_CHECKSIG])
  | 5 => (PubKeys.decompress (3 :: data.take 32)).map fun pubkey => [65] ++ (pubkey ++ [OP_CHECKSIG])
  | _ => none

def serialize [PubKeys] (script : CScript) : List UInt8 :=
  match compress script with
  | some compr => compr
  | none => varBytes 0 ((script.length + nSpecialScripts) % 2 ^ 32) ++ script

-- A key that does not decompress leaves the script empty.
def unserialize [PubKeys] (bytes : List UInt8) : Except String (CScript × List UInt8) := do
  let (nSize, bytes) ← readVarBytes streamFailures 32 0 bytes
  if nSize < nSpecialScripts then
    let (vch, rest) ← takeBytes streamFailures (getSpecialSize nSize) bytes
    return ((decompress nSize vch).getD [], rest)
  else takeBytes streamFailures (nSize - nSpecialScripts) bytes

theorem slices (script : CScript) (first size : Nat) :
    script = script.take first ++ ((script.drop first).take size ++ script.drop (first + size)) := by
  rw [← List.drop_drop, List.take_append_drop, List.take_append_drop]

theorem isToKeyID_some (script : CScript) (keyID : List UInt8)
    (isKey : isToKeyID script = some keyID) :
    keyID.length = 20 ∧
      script = [OP_DUP, OP_HASH160, 20] ++ (keyID ++ [OP_EQUALVERIFY, OP_CHECKSIG]) := by
  rw [isToKeyID] at isKey
  split at isKey
  next shape =>
    obtain ⟨length, first, last⟩ := shape
    rw [Option.some.injEq] at isKey
    have parts := slices script 3 20
    rw [first, isKey, last] at parts
    refine ⟨?_, parts⟩
    rw [← isKey, List.length_take, List.length_drop]
    omega
  next => cases isKey

theorem isToScriptID_some (script : CScript) (scriptID : List UInt8)
    (isScript : isToScriptID script = some scriptID) :
    scriptID.length = 20 ∧ script = [OP_HASH160, 20] ++ (scriptID ++ [OP_EQUAL]) := by
  rw [isToScriptID] at isScript
  split at isScript
  next shape =>
    obtain ⟨length, first, last⟩ := shape
    rw [Option.some.injEq] at isScript
    have parts := slices script 2 20
    rw [first, isScript, last] at parts
    refine ⟨?_, parts⟩
    rw [← isScript, List.length_take, List.length_drop]
    omega
  next => cases isScript

variable [PubKeys]

inductive KeyScript (script : CScript) : List UInt8 → Prop
  | compressed (header : UInt8) (body : List UInt8) (parity : header = 2 ∨ header = 3)
      (length : body.length = 32) (form : script = [33] ++ (header :: body ++ [OP_CHECKSIG])) :
      KeyScript script (header :: body)
  | whole (body : List UInt8) (length : body.length = 64)
      (valid : PubKeys.isFullyValid (4 :: body) = true)
      (form : script = [65] ++ (4 :: body ++ [OP_CHECKSIG])) : KeyScript script (4 :: body)

theorem isToPubKey_some (script : CScript) (pubkey : List UInt8)
    (isKey : isToPubKey script = some pubkey) : KeyScript script pubkey := by
  rw [isToPubKey] at isKey
  match script with
  | [] => simp at isKey
  | [_] => simp at isKey
  | size :: header :: body =>
    simp only [List.getElem?_cons_succ, List.getElem?_cons_zero, Option.some.injEq,
      List.drop_succ_cons, List.drop_zero, List.take_succ_cons, List.take_zero,
      List.cons.injEq, and_true, List.length_cons] at isKey
    split at isKey
    next shape =>
      obtain ⟨length, rfl, last, parity⟩ := shape
      rw [Option.some.injEq] at isKey
      rw [← isKey]
      apply KeyScript.compressed header (body.take 32) parity
      · rw [List.length_take]
        omega
      · rw [← last, List.cons_append, List.cons_append, List.take_append_drop]
        rfl
    next =>
      split at isKey
      next shape =>
        obtain ⟨length, rfl, last, rfl⟩ := shape
        split at isKey
        next valid =>
          rw [Option.some.injEq] at isKey
          rw [← isKey]
          apply KeyScript.whole (body.take 64) _ valid
          · rw [← last, List.cons_append, List.cons_append, List.take_append_drop]
            rfl
          · rw [List.length_take]
            omega
        next => cases isKey
      next => cases isKey

theorem unserialize_special (nSize : UInt8) (data rest : List UInt8)
    (special : nSize.toNat < nSpecialScripts) (length : data.length = getSpecialSize nSize.toNat) :
    unserialize (nSize :: data ++ rest) =
      .ok ((decompress nSize.toNat data).getD [], rest) := by
  have small : nSize.toNat < 6 := special
  have code : readVarBytes streamFailures 32 0 (nSize :: (data ++ rest)) =
      .ok (nSize.toNat, data ++ rest) := by
    have low : (0 * 128 + nSize.toNat % 128) % 2 ^ 32 = nSize.toNat := by omega
    rw [readVarBytes]
    simp only [low]
    rw [if_pos (by omega)]
  have taken := takeBytes_append streamFailures data rest
  rw [length] at taken
  rw [List.cons_append, unserialize, code]
  simp only [bind, Except.bind]
  rw [if_pos special, taken]
  rfl

omit [PubKeys] in
theorem parity_cases (byte : UInt8) : byte &&& 1 = 0 ∨ byte &&& 1 = 1 := by
  have value : (byte &&& 1).toNat = byte.toNat % 2 := by
    rw [UInt8.toNat_and]
    exact Nat.and_one_is_mod _
  rw [← UInt8.toNat_inj, ← UInt8.toNat_inj, value]
  exact Nat.mod_two_eq_zero_or_one _

theorem decompress_key (bit : UInt8) (parity : bit = 0 ∨ bit = 1) (data : List UInt8) :
    getSpecialSize (4 ||| bit).toNat = 32 ∧ (4 ||| bit).toNat < nSpecialScripts ∧
      decompress (4 ||| bit).toNat data =
        (PubKeys.decompress ((2 + bit) :: data.take 32)).map fun pubkey =>
          [65] ++ (pubkey ++ [OP_CHECKSIG]) := by
  rcases parity with rfl | rfl
  · exact ⟨rfl, by decide, rfl⟩
  · exact ⟨rfl, by decide, rfl⟩

theorem unserialize_compressed (inverts : PubKeys.Inverts) (script : CScript) (compr : List UInt8)
    (compressed : compress script = some compr) (rest : List UInt8) :
    unserialize (compr ++ rest) = .ok (script, rest) := by
  rw [compress] at compressed
  split at compressed
  next keyID isKey =>
    obtain ⟨length, form⟩ := isToKeyID_some script keyID isKey
    rw [Option.some.injEq] at compressed
    rw [← compressed, unserialize_special 0 keyID rest (by decide) length, form]
    simp [decompress, List.take_of_length_le (Nat.le_of_eq length)]
  next =>
    split at compressed
    next scriptID isScript =>
      obtain ⟨length, form⟩ := isToScriptID_some script scriptID isScript
      rw [Option.some.injEq] at compressed
      rw [← compressed, unserialize_special 1 scriptID rest (by decide) length, form]
      simp [decompress, List.take_of_length_le (Nat.le_of_eq length)]
    next =>
      obtain ⟨pubkey, isKey, key⟩ := Option.bind_eq_some_iff.mp compressed
      cases isToPubKey_some script pubkey isKey with
      | compressed header body parity length form =>
          have data : body.take 32 = body := List.take_of_length_le (Nat.le_of_eq length)
          rw [compressKey, if_pos parity, data, Option.some.injEq] at key
          rw [← key, form]
          rcases parity with rfl | rfl
          · rw [unserialize_special 2 body rest (by decide) length]
            simp [decompress, data]
          · rw [unserialize_special 3 body rest (by decide) length]
            simp [decompress, data]
      | whole body length valid form =>
          have x_length : (body.take 32).length = 32 := by
            rw [List.length_take]
            omega
          have point := inverts body length valid
          rw [compressKey, if_neg (by decide), if_pos rfl, Option.some.injEq] at key
          rw [← key, form]
          obtain ⟨size, special, decompressed⟩ :=
            decompress_key _ (parity_cases (body.getD 63 0)) (body.take 32)
          rw [unserialize_special _ (body.take 32) rest special (x_length.trans size.symm), decompressed,
            List.take_take, Nat.min_self, point]
          rfl

theorem script_back (inverts : PubKeys.Inverts) (script : CScript)
    (short : script.length + nSpecialScripts < 2 ^ 32) (rest : List UInt8) :
    unserialize (serialize script ++ rest) = .ok (script, rest) := by
  rw [serialize]
  split
  next compr compressed => exact unserialize_compressed inverts script compr compressed rest
  next =>
    have code := readVarBytes_varBytes streamFailures 32 0 (script.length + nSpecialScripts)
      (.inl rfl) short (script ++ rest)
    have taken := takeBytes_append streamFailures script rest
    rw [if_pos rfl] at code
    rw [Nat.mod_eq_of_lt short, List.append_assoc, unserialize, code]
    simp only [bind, Except.bind]
    rw [if_neg (by omega), Nat.add_sub_cancel, taken]

end CScriptCompressor

theorem CCoins.networks_nMaxMoneyOut (params : CChainParams)
    (network : params ∈ CChainParams.networks) : params.nMaxMoneyOut < 2 ^ 60 := by
  revert params
  decide

/-- Amounts and codes come back, and so do scripts. -/
theorem compression_lossless [PubKeys] (inverts : PubKeys.Inverts) (params : CChainParams)
    (network : params ∈ CChainParams.networks) :
    (∀ n : Nat, moneyRange params n = true →
      CTxOutCompressor.decompressAmount (CTxOutCompressor.compressAmount n) = n) ∧
    (∀ x : Nat, x < 2 ^ 64 → CTxOutCompressor.codedAmount x < 2 ^ 64 →
      CTxOutCompressor.compressAmount (CTxOutCompressor.decompressAmount x) = x) ∧
    (∀ script : CScript, script.length + CScriptCompressor.nSpecialScripts < 2 ^ 32 →
      ∀ rest, CScriptCompressor.unserialize (CScriptCompressor.serialize script ++ rest) =
        .ok (script, rest)) := by
  refine ⟨?_, CTxOutCompressor.compress_decompress, CScriptCompressor.script_back inverts⟩
  intro n inRange
  have limit := CCoins.networks_nMaxMoneyOut params network
  simp only [moneyRange, Bool.and_eq_true, decide_eq_true_eq] at inRange
  exact (CTxOutCompressor.decompress_compress n (by omega)).2

def generator : List UInt8 :=
  (leBytes 32 0x79be667ef9dcbbac55a06295ce870b07029bfcdb2dce28d959f2815b16f81798).reverse ++
    (leBytes 32 0x483ada7726a3c4655da4fbfc0e1108a8fd17b448a68554199c47d08ffb10d4b8).reverse

@[reducible] def generatorKeys : PubKeys :=
  ⟨fun key => key == 4 :: generator,
    fun key => if key == 2 :: generator.take 32 then some (4 :: generator) else none⟩

theorem generatorKeys_inverts : @PubKeys.Inverts generatorKeys := by
  intro body _ valid
  have isGenerator : (4 :: body == 4 :: generator) = true := valid
  have same : body = generator := by simpa using isGenerator
  subst same
  decide +kernel

theorem compression_lossless_generator :
    CTxOutCompressor.decompressAmount (CTxOutCompressor.compressAmount 5000000000) = 5000000000 ∧
      CTxOutCompressor.compressAmount (CTxOutCompressor.decompressAmount 50) = 50 ∧
      @CScriptCompressor.unserialize generatorKeys (@CScriptCompressor.serialize generatorKeys
          ([65] ++ (4 :: generator ++ [OP_CHECKSIG])) ++ [1, 2]) =
        .ok ([65] ++ (4 :: generator ++ [OP_CHECKSIG]), [1, 2]) ∧
      @CScriptCompressor.unserialize generatorKeys (@CScriptCompressor.serialize generatorKeys
          ([65] ++ (6 :: generator ++ [OP_CHECKSIG])) ++ []) =
        .ok ([65] ++ (6 :: generator ++ [OP_CHECKSIG]), []) := by
  obtain ⟨amounts, codes, scripts⟩ := @compression_lossless generatorKeys generatorKeys_inverts
    CChainParams.mainParams List.mem_cons_self
  exact ⟨amounts 5000000000 (by decide), codes 50 (by decide) (by decide),
    scripts _ (by decide +kernel) _, scripts _ (by decide +kernel) _⟩

end CryptoYen
