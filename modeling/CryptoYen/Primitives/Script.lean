import CryptoYen.Primitives.Transaction

set_option autoImplicit false

namespace CryptoYen

def OP_PUSHDATA1 : UInt8 := 0x4c
def OP_PUSHDATA2 : UInt8 := 0x4d
def OP_PUSHDATA4 : UInt8 := 0x4e
def OP_1 : UInt8 := 0x51
def OP_16 : UInt8 := 0x60
def OP_DUP : UInt8 := 0x76
def OP_EQUAL : UInt8 := 0x87
def OP_EQUALVERIFY : UInt8 := 0x88
def OP_HASH160 : UInt8 := 0xa9
def OP_CHECKSIG : UInt8 := 0xac
def OP_CHECKSIGVERIFY : UInt8 := 0xad
def OP_CHECKMULTISIG : UInt8 := 0xae
def OP_CHECKMULTISIGVERIFY : UInt8 := 0xaf
def OP_INVALIDOPCODE : UInt8 := 0xff

def absBytes : Nat → Nat → List UInt8
  | 0, _ => []
  | width + 1, absvalue =>
      if absvalue = 0 then []
      else UInt8.ofNat (absvalue % 256) :: absBytes width (absvalue / 256)

namespace CScriptNum

def serialize (value : Int) : List UInt8 :=
  let result := absBytes 8 value.natAbs
  match result.getLast? with
  | none => []
  | some back =>
      if 0x80 ≤ back then result ++ [if value < 0 then 0x80 else 0]
      else if value < 0 then result.dropLast ++ [back ||| 0x80]
      else result

end CScriptNum

def littleEndian (width n : Nat) : List UInt8 :=
  (List.range width).map fun i => UInt8.ofNat (n / 256 ^ i % 256)

def littleEndianValue : List UInt8 → Nat
  | [] => 0
  | byte :: rest => byte.toNat + 256 * littleEndianValue rest

namespace CScript

-- operator<<(std::vector<unsigned char>)
def pushData (b : List UInt8) : CScript :=
  if b.length < 0x4c then UInt8.ofNat b.length :: b
  else if b.length ≤ 0xff then OP_PUSHDATA1 :: UInt8.ofNat b.length :: b
  else if b.length ≤ 0xffff then OP_PUSHDATA2 :: littleEndian 2 b.length ++ b
  else OP_PUSHDATA4 :: littleEndian 4 b.length ++ b

-- operator<<(int64_t)
def pushInt64 (n : Int) : CScript :=
  if n = -1 ∨ (1 ≤ n ∧ n ≤ 16) then [UInt8.ofNat (n + 0x50).toNat]
  else if n = 0 then [0]
  else pushData (CScriptNum.serialize n)

def immediateSize (opcode : UInt8) (pc : CScript) : Option (Nat × CScript) :=
  if opcode < OP_PUSHDATA1 then some (opcode.toNat, pc)
  else
    let width := if opcode = OP_PUSHDATA1 then 1 else if opcode = OP_PUSHDATA2 then 2 else 4
    if pc.length < width then none else some (littleEndianValue (pc.take width), pc.drop width)

-- GetOp2: the opcode, its data and the rest of the script.
def getOp : CScript → Option (UInt8 × List UInt8 × CScript)
  | [] => none
  | opcode :: pc =>
      if OP_PUSHDATA4 < opcode then some (opcode, [], pc)
      else do
        let (nSize, pc) ← immediateSize opcode pc
        -- (unsigned int)(end() - pc) < nSize
        if pc.length % 2 ^ 32 < nSize then none
        else some (opcode, pc.take nSize, pc.drop nSize)

def opSigOps (fAccurate : Bool) (lastOpcode opcode : UInt8) : Nat :=
  if opcode = OP_CHECKSIG ∨ opcode = OP_CHECKSIGVERIFY then 1
  else if opcode = OP_CHECKMULTISIG ∨ opcode = OP_CHECKMULTISIGVERIFY then
    if fAccurate ∧ OP_1 ≤ lastOpcode ∧ lastOpcode ≤ OP_16 then lastOpcode.toNat - 0x50 else 20
  else 0

-- Every operation consumes a byte, so the script's length is fuel enough.
def sigOpCountFrom (fAccurate : Bool) : Nat → CScript → UInt8 → Nat
  | 0, _, _ => 0
  | fuel + 1, pc, lastOpcode =>
      match getOp pc with
      | none => 0
      | some (opcode, _, rest) =>
          opSigOps fAccurate lastOpcode opcode + sigOpCountFrom fAccurate fuel rest opcode

def getSigOpCount (script : CScript) (fAccurate : Bool) : Nat :=
  sigOpCountFrom fAccurate script.length script OP_INVALIDOPCODE

def isPayToScriptHash (script : CScript) : Bool :=
  script.length == 23 && script[0]? == some OP_HASH160 && script[1]? == some 0x14 &&
    script[22]? == some OP_EQUAL

-- The last item that a scriptSig pushes; none when it does more than push.
def lastPush : Nat → CScript → List UInt8 → Option (List UInt8)
  | _, [], data => some data
  | 0, _ :: _, _ => none
  | fuel + 1, pc, _ =>
      match getOp pc with
      | none => none
      | some (opcode, data, rest) => if OP_16 < opcode then none else lastPush fuel rest data

def getP2SHSigOpCount (script scriptSig : CScript) : Nat :=
  if script.isPayToScriptHash then
    match lastPush scriptSig.length scriptSig [] with
    | none => 0
    | some data => getSigOpCount data true
  else getSigOpCount script true

end CScript

theorem absBytes_value (width n : Nat) (bound : n < 256 ^ width) :
    littleEndianValue (absBytes width n) = n := by
  induction width generalizing n with
  | zero =>
      have zero : n = 0 := by simpa using bound
      simp [absBytes, littleEndianValue, zero]
  | succ width ih =>
      by_cases zero : n = 0
      · simp [absBytes, littleEndianValue, zero]
      · have rest : n / 256 < 256 ^ width := by
          rw [Nat.div_lt_iff_lt_mul (by decide), ← Nat.pow_succ]
          exact bound
        simp only [absBytes, zero, ↓reduceIte, littleEndianValue, ih _ rest,
          UInt8.toNat_ofNat', Nat.reducePow, Nat.mod_mod]
        omega

theorem littleEndianValue_append_zero (bytes : List UInt8) :
    littleEndianValue (bytes ++ [0]) = littleEndianValue bytes := by
  induction bytes with
  | nil => rfl
  | cons byte rest ih => simp [littleEndianValue, ih]

namespace CScriptNum

theorem serialize_value (n : Nat) (bound : n < 256 ^ 8) :
    littleEndianValue (serialize n) = n := by
  have value := absBytes_value 8 n bound
  simp only [serialize, Int.natAbs_natCast, show ¬ (n : Int) < 0 from by omega, ↓reduceIte]
  split
  next empty =>
    rw [List.getLast?_eq_none_iff.mp empty] at value
    exact value
  next =>
    split
    · rw [littleEndianValue_append_zero, value]
    · exact value

theorem absBytes_length (width n : Nat) : (absBytes width n).length ≤ width := by
  induction width generalizing n with
  | zero => simp [absBytes]
  | succ width ih =>
      simp only [absBytes]
      split
      · simp
      · simpa using ih (n / 256)

theorem serialize_length (n : Int) : (serialize n).length ≤ 9 := by
  have short := absBytes_length 8 n.natAbs
  rw [serialize]
  split
  · exact Nat.zero_le _
  · split
    · rw [List.length_append, List.length_singleton]
      omega
    · split
      · rw [List.length_append, List.length_singleton, List.length_dropLast]
        omega
      · omega

end CScriptNum

namespace CScript

def heightOf : CScript → Nat
  | [] => 0
  | opcode :: rest =>
      if 0x51 ≤ opcode then opcode.toNat - 0x50 else littleEndianValue (rest.take opcode.toNat)

theorem heightOf_pushInt64 (n : Nat) (bound : n < 256 ^ 8) (suffix : CScript) :
    heightOf (pushInt64 n ++ suffix) = n := by
  by_cases small : 1 ≤ n ∧ n ≤ 16
  · obtain ⟨low, high⟩ := small
    have value : ((n : Int) + 0x50).toNat = n + 0x50 := by omega
    have opcode : (UInt8.ofNat (n + 0x50)).toNat = n + 0x50 := by
      rw [UInt8.toNat_ofNat']
      omega
    have reserved : (0x51 : UInt8) ≤ UInt8.ofNat (n + 0x50) := by
      rw [UInt8.le_iff_toNat_le, opcode]
      simp only [UInt8.reduceToNat]
      omega
    simp only [pushInt64, show (n : Int) = -1 ∨ (1 ≤ (n : Int) ∧ (n : Int) ≤ 16) from by omega,
      ↓reduceIte, value, List.cons_append, heightOf, reserved, opcode]
    omega
  · by_cases zero : n = 0
    · subst zero
      simp [pushInt64, heightOf, littleEndianValue]
    · have short := CScriptNum.serialize_length n
      have direct : (CScriptNum.serialize n).length < 0x4c := by omega
      have opcode : (UInt8.ofNat (CScriptNum.serialize n).length).toNat =
          (CScriptNum.serialize n).length := by
        rw [UInt8.toNat_ofNat']
        omega
      have low : ¬ (0x51 : UInt8) ≤ UInt8.ofNat (CScriptNum.serialize n).length := by
        rw [UInt8.le_iff_toNat_le, opcode]
        simp only [UInt8.reduceToNat]
        omega
      simp only [pushInt64, show ¬ ((n : Int) = -1 ∨ (1 ≤ (n : Int) ∧ (n : Int) ≤ 16)) from by
        omega, show ¬ (n : Int) = 0 from by omega, ↓reduceIte, pushData, direct,
        List.cons_append, heightOf, low, opcode]
      rw [List.take_left, CScriptNum.serialize_value n bound]

theorem pushInt64_prefix_injective (first second : Nat) (firstBound : first < 256 ^ 8)
    (secondBound : second < 256 ^ 8) (script : CScript)
    (isFirst : pushInt64 first <+: script) (isSecond : pushInt64 second <+: script) :
    first = second := by
  obtain ⟨afterFirst, rfl⟩ := isFirst
  obtain ⟨afterSecond, same⟩ := isSecond
  rw [← heightOf_pushInt64 first firstBound afterFirst, ← same,
    heightOf_pushInt64 second secondBound afterSecond]

end CScript

end CryptoYen
