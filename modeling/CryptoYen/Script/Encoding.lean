import CryptoYen.Script.Building

set_option autoImplicit false

namespace CryptoYen

abbrev Valtype := List UInt8

inductive ScriptError
  | unknownError | evalFalse | opReturn
  | scriptSize | pushSize | opCount | stackSize | sigCount | pubkeyCount
  | verify | equalVerify | checkMultiSigVerify | checkSigVerify | numEqualVerify
  | badOpcode | disabledOpcode | invalidStackOperation | invalidAltstackOperation
  | unbalancedConditional
  | negativeLocktime | unsatisfiedLocktime
  | sigHashtype | sigDer | minimalData | sigPushOnly | sigHighS | sigNullDummy | pubkeyType
  | discourageUpgradableNops
  deriving DecidableEq, Repr

def SCRIPT_VERIFY_P2SH : BitVec 32 := 1 <<< 0
def SCRIPT_VERIFY_STRICTENC : BitVec 32 := 1 <<< 1
def SCRIPT_VERIFY_DERSIG : BitVec 32 := 1 <<< 2
def SCRIPT_VERIFY_LOW_S : BitVec 32 := 1 <<< 3
def SCRIPT_VERIFY_NULLDUMMY : BitVec 32 := 1 <<< 4
def SCRIPT_VERIFY_SIGPUSHONLY : BitVec 32 := 1 <<< 5
def SCRIPT_VERIFY_MINIMALDATA : BitVec 32 := 1 <<< 6
def SCRIPT_VERIFY_DISCOURAGE_UPGRADABLE_NOPS : BitVec 32 := 1 <<< 7
def SCRIPT_VERIFY_CHECKLOCKTIMEVERIFY : BitVec 32 := 1 <<< 9

def SIGHASH_ALL : UInt8 := 1
def SIGHASH_NONE : UInt8 := 2
def SIGHASH_SINGLE : UInt8 := 3
def SIGHASH_ANYONECANPAY : UInt8 := 0x80

def MAX_SCRIPT_ELEMENT_SIZE : Nat := 520

def OP_0 : UInt8 := 0
def OP_1NEGATE : UInt8 := 0x4f

class ScriptCrypto where
  ripemd160 : Valtype → Vector UInt8 20
  sha1 : Valtype → Vector UInt8 20
  sha256 : Valtype → Vector UInt8 32
  checkLowS : Valtype → Bool

@[reducible] def zeroDigests : ScriptCrypto :=
  ⟨fun _ => Vector.replicate 20 0, fun _ => Vector.replicate 20 0, fun _ => Vector.replicate 32 0,
    fun _ => true⟩

def castToBool : Valtype → Bool
  | [] => false
  | [byte] => byte != 0 && byte != 0x80
  | byte :: rest => byte != 0 || castToBool rest

section encodings

variable (flags : BitVec 32)

def isCompressedOrUncompressedPubKey (vchPubKey : Valtype) : Bool :=
  if vchPubKey.length < 33 then false
  else
    let first := vchPubKey.getD 0 0
    if first = 0x04 then vchPubKey.length == 65
    else if first = 0x02 ∨ first = 0x03 then vchPubKey.length == 33
    else false

-- The length tests keep every access inside the signature.
def isValidSignatureEncoding (sig : Valtype) : Bool :=
  let byte (i : Nat) : UInt8 := sig.getD i 0
  let lenR := (byte 3).toNat
  let lenS := (byte (5 + lenR)).toNat
  if sig.length < 9 then false
  else if 73 < sig.length then false
  else if byte 0 ≠ 0x30 then false
  else if (byte 1).toNat ≠ sig.length - 3 then false
  else if sig.length ≤ 5 + lenR then false
  else if lenR + lenS + 7 ≠ sig.length then false
  else if byte 2 ≠ 0x02 then false
  else if lenR = 0 then false
  else if byte 4 &&& 0x80 ≠ 0 then false
  else if 1 < lenR ∧ byte 4 = 0 ∧ byte 5 &&& 0x80 = 0 then false
  else if byte (lenR + 4) ≠ 0x02 then false
  else if lenS = 0 then false
  else if byte (lenR + 6) &&& 0x80 ≠ 0 then false
  else if 1 < lenS ∧ byte (lenR + 6) = 0 ∧ byte (lenR + 7) &&& 0x80 = 0 then false
  else true

-- The checks that set an error return it; none is their `true`.
def isLowDERSignature [ScriptCrypto] (vchSig : Valtype) : Option ScriptError :=
  if !isValidSignatureEncoding vchSig then some .sigDer
  else if !ScriptCrypto.checkLowS vchSig.dropLast then some .sigHighS
  else none

def isDefinedHashtypeSignature (vchSig : Valtype) : Bool :=
  match vchSig.getLast? with
  | none => false
  | some back =>
      let nHashType := back &&& ~~~SIGHASH_ANYONECANPAY
      !(nHashType < SIGHASH_ALL || SIGHASH_SINGLE < nHashType)

def checkSignatureEncoding [ScriptCrypto] (vchSig : Valtype) : Option ScriptError :=
  if vchSig = [] then none
  else if
      flags &&& (SCRIPT_VERIFY_DERSIG ||| SCRIPT_VERIFY_LOW_S ||| SCRIPT_VERIFY_STRICTENC) ≠ 0 ∧
        isValidSignatureEncoding vchSig = false then
    some .sigDer
  else if flags &&& SCRIPT_VERIFY_LOW_S ≠ 0 ∧ (isLowDERSignature vchSig).isSome then
    isLowDERSignature vchSig
  else if flags &&& SCRIPT_VERIFY_STRICTENC ≠ 0 ∧ isDefinedHashtypeSignature vchSig = false then
    some .sigHashtype
  else none

def checkPubKeyEncoding (vchPubKey : Valtype) : Option ScriptError :=
  if flags &&& SCRIPT_VERIFY_STRICTENC ≠ 0 ∧
      isCompressedOrUncompressedPubKey vchPubKey = false then
    some .pubkeyType
  else none

end encodings

def checkMinimalPush (data : Valtype) (opcode : UInt8) : Bool :=
  let first := data.getD 0 0
  if data.length = 0 then opcode == OP_0
  else if data.length = 1 ∧ 1 ≤ first ∧ first ≤ 16 then opcode == OP_1 + (first - 1)
  else if data.length = 1 ∧ first = 0x81 then opcode == OP_1NEGATE
  else if data.length ≤ 75 then opcode.toNat == data.length
  else if data.length ≤ 255 then opcode == OP_PUSHDATA1
  else if data.length ≤ 65535 then opcode == OP_PUSHDATA2
  else true

namespace CScriptNum

def nDefaultMaxNumSize : Nat := 4

-- The sign is the top bit of the last byte.
def setVch (vch : Valtype) : Int :=
  match vch.getLast? with
  | none => 0
  | some back =>
      if back &&& 0x80 ≠ 0 then -(littleEndianValue vch % (0x80 * 256 ^ (vch.length - 1)) : Nat)
      else littleEndianValue vch

def isMinimal (vch : Valtype) : Bool :=
  match vch.reverse with
  | [] => true
  | [back] => back &&& 0x7f != 0
  | back :: second :: _ => back &&& 0x7f != 0 || second &&& 0x80 != 0

-- The constructor from a vector; none is a scriptnum_error.
def ofVch (vch : Valtype) (fRequireMinimal : Bool) (nMaxNumSize : Nat) : Option Int :=
  if nMaxNumSize < vch.length then none
  else if fRequireMinimal && !isMinimal vch then none
  else some (setVch vch)

def getint (value : Int) : Int :=
  if 2 ^ 31 - 1 < value then 2 ^ 31 - 1
  else if value < -2 ^ 31 then -2 ^ 31
  else value

end CScriptNum

namespace CScript

def eraseCopies (b : CScript) : Nat → CScript → Nat × CScript
  | 0, pc => (0, pc)
  | fuel + 1, pc =>
      if b.isPrefixOf pc then
        let (nFound, rest) := eraseCopies b fuel (pc.drop b.length)
        (nFound + 1, rest)
      else (0, pc)

def findAndDeleteFrom (b : CScript) : Nat → CScript → Nat × CScript
  | 0, pc => (0, pc)
  | fuel + 1, pc =>
      let (erased, pc) := eraseCopies b pc.length pc
      match getOp pc with
      | none => (erased, pc)
      | some (_, _, next) =>
          let (nFound, rest) := findAndDeleteFrom b fuel next
          (erased + nFound, pc.take (pc.length - next.length) ++ rest)

def findAndDelete (script b : CScript) : Nat × CScript :=
  if b = [] then (0, script) else findAndDeleteFrom b (script.length + 1) script

-- Every operation consumes a byte, so the script's length is fuel enough.
def isPushOnlyFrom : Nat → CScript → Bool
  | _, [] => true
  | 0, _ :: _ => false
  | fuel + 1, pc =>
      match getOp pc with
      | none => false
      | some (opcode, _, rest) => opcode ≤ OP_16 && isPushOnlyFrom fuel rest

def isPushOnly (script : CScript) : Bool := isPushOnlyFrom script.length script

end CScript

end CryptoYen
