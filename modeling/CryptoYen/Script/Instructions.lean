import CryptoYen.Library.Metered
import CryptoYen.Script.Encoding

set_option autoImplicit false

namespace CryptoYen

def OP_IF : UInt8 := 0x63
def OP_ENDIF : UInt8 := 0x68

inductive StackOp
  | drop2 | dup2 | dup3 | over2 | rot2 | swap2 | ifDup | depth | drop | dup | nip | copyOver | rot
  | swap | tuck | size
  deriving DecidableEq, Repr

inductive UnaryOp
  | add1 | sub1 | negate | abs | not | notEqual0
  deriving DecidableEq, Repr

inductive BinaryOp
  | add | sub | boolAnd | boolOr | numEqual | numEqualVerify | numNotEqual | lessThan
  | greaterThan | lessThanOrEqual | greaterThanOrEqual | min | max
  deriving DecidableEq, Repr

inductive HashOp
  | ripemd160 | sha1 | sha256 | hash160 | hash256
  deriving DecidableEq, Repr

inductive Instr
  | number (value : Int)
  | nop
  | checkLockTimeVerify
  | upgradableNop
  | ifElse (negate : Bool)
  | else
  | endif
  | verify
  | return
  | toAltStack
  | fromAltStack
  | onStack (op : StackOp)
  | pick (roll : Bool)
  | equal (verify : Bool)
  | unary (op : UnaryOp)
  | binary (op : BinaryOp)
  | within
  | hash (op : HashOp)
  | codeSeparator
  | checkSig (verify : Bool)
  | checkMultiSig (verify : Bool)
  | bad
  deriving DecidableEq, Repr

namespace Instr

def ofOpcode (opcode : UInt8) : Instr :=
  if opcode = OP_1NEGATE ∨ (OP_1 ≤ opcode ∧ opcode ≤ OP_16) then
    .number (opcode.toNat - (OP_1.toNat - 1 : Nat))
  else
    match opcode.toNat with
    | 0x61 => .nop
    | 0x63 => .ifElse false
    | 0x64 => .ifElse true
    | 0x67 => .else
    | 0x68 => .endif
    | 0x69 => .verify
    | 0x6a => .return
    | 0x6b => .toAltStack
    | 0x6c => .fromAltStack
    | 0x6d => .onStack .drop2
    | 0x6e => .onStack .dup2
    | 0x6f => .onStack .dup3
    | 0x70 => .onStack .over2
    | 0x71 => .onStack .rot2
    | 0x72 => .onStack .swap2
    | 0x73 => .onStack .ifDup
    | 0x74 => .onStack .depth
    | 0x75 => .onStack .drop
    | 0x76 => .onStack .dup
    | 0x77 => .onStack .nip
    | 0x78 => .onStack .copyOver
    | 0x79 => .pick false
    | 0x7a => .pick true
    | 0x7b => .onStack .rot
    | 0x7c => .onStack .swap
    | 0x7d => .onStack .tuck
    | 0x82 => .onStack .size
    | 0x87 => .equal false
    | 0x88 => .equal true
    | 0x8b => .unary .add1
    | 0x8c => .unary .sub1
    | 0x8f => .unary .negate
    | 0x90 => .unary .abs
    | 0x91 => .unary .not
    | 0x92 => .unary .notEqual0
    | 0x93 => .binary .add
    | 0x94 => .binary .sub
    | 0x9a => .binary .boolAnd
    | 0x9b => .binary .boolOr
    | 0x9c => .binary .numEqual
    | 0x9d => .binary .numEqualVerify
    | 0x9e => .binary .numNotEqual
    | 0x9f => .binary .lessThan
    | 0xa0 => .binary .greaterThan
    | 0xa1 => .binary .lessThanOrEqual
    | 0xa2 => .binary .greaterThanOrEqual
    | 0xa3 => .binary .min
    | 0xa4 => .binary .max
    | 0xa5 => .within
    | 0xa6 => .hash .ripemd160
    | 0xa7 => .hash .sha1
    | 0xa8 => .hash .sha256
    | 0xa9 => .hash .hash160
    | 0xaa => .hash .hash256
    | 0xab => .codeSeparator
    | 0xac => .checkSig false
    | 0xad => .checkSig true
    | 0xae => .checkMultiSig false
    | 0xaf => .checkMultiSig true
    | 0xb1 => .checkLockTimeVerify
    | 0xb0 | 0xb2 | 0xb3 | 0xb4 | 0xb5 | 0xb6 | 0xb7 | 0xb8 | 0xb9 => .upgradableNop
    | _ => .bad

end Instr

-- OP_CAT .. OP_RIGHT, OP_INVERT .. OP_XOR, OP_2MUL, OP_2DIV and OP_MUL .. OP_RSHIFT.
def isDisabledOpcode (opcode : UInt8) : Bool :=
  (0x7e ≤ opcode && opcode ≤ 0x81) || (0x83 ≤ opcode && opcode ≤ 0x86) ||
    opcode == 0x8d || opcode == 0x8e || (0x95 ≤ opcode && opcode ≤ 0x99)

/-- How an evaluation can stop: set_error, an exception of CScriptNum, or one of three ways that
are kept apart to show that none of them is ever taken. -/
inductive Halt
  | failed (serror : ScriptError)
  | thrown
  | outOfRange
  | aborted
  | endless
  deriving DecidableEq, Repr

/-- An evaluation, with the number of its calls of CheckSig. -/
abbrev Eval := Metered Halt

structure BaseSignatureChecker where
  checkSig : Valtype → Valtype → CScript → Bool
  checkLockTime : Int → Bool

-- The top of a stack is the head of the list.
structure EvalState where
  pc : CScript
  pbegincodehash : CScript
  stack : List Valtype
  altstack : List Valtype
  vfExec : List Bool
  nOpCount : Nat
  deriving DecidableEq, Repr

def demand (holds : Prop) [Decidable holds] (serror : ScriptError) : Eval Unit :=
  if holds then pure () else .stop (.failed serror)

def need (n : Nat) (stack : List Valtype) (serror : ScriptError) : Eval Unit :=
  demand (n ≤ stack.length) serror

def accept : Option ScriptError → Eval Unit
  | none => pure ()
  | some serror => .stop (.failed serror)

-- stacktop(-i)
def stackTop (i : Nat) (stack : List Valtype) : Eval Valtype :=
  match i with
  | 0 => .stop .outOfRange
  | i + 1 =>
      match stack[i]? with
      | none => .stop .outOfRange
      | some vch => pure vch

def popStack : List Valtype → Eval (List Valtype)
  | [] => .stop .outOfRange
  | _ :: stack => pure stack

def popStackTimes : Nat → List Valtype → Eval (List Valtype)
  | 0, stack => pure stack
  | n + 1, stack => do
      let stack ← popStack stack
      popStackTimes n stack

-- erase(end() - i, end() - j)
def eraseStack (i j : Nat) (stack : List Valtype) : Eval (List Valtype) :=
  if j ≤ i ∧ i ≤ stack.length then pure (stack.take j ++ stack.drop i) else .stop .outOfRange

-- insert(end() - i, vch)
def insertStack (i : Nat) (vch : Valtype) (stack : List Valtype) : Eval (List Valtype) :=
  if i ≤ stack.length then pure (stack.take i ++ vch :: stack.drop i) else .stop .outOfRange

-- swap(stacktop(-i), stacktop(-j))
def swapStack (i j : Nat) (stack : List Valtype) : Eval (List Valtype) := do
  let vch1 ← stackTop i stack
  let vch2 ← stackTop j stack
  return (stack.set (i - 1) vch2).set (j - 1) vch1

def vchOf (value : Bool) : Valtype := if value then [1] else []

section execution

variable [ScriptCrypto] (flags : BitVec 32) (checker : BaseSignatureChecker)

def fRequireMinimal : Bool := flags &&& SCRIPT_VERIFY_MINIMALDATA != 0

def scriptNum (vch : Valtype) (nMaxNumSize : Nat) : Eval Int :=
  match CScriptNum.ofVch vch (fRequireMinimal flags) nMaxNumSize with
  | none => .stop .thrown
  | some value => pure value

def executeStackOp (op : StackOp) (stack : List Valtype) : Eval (List Valtype) :=
  match op with
  | .drop2 => do
      need 2 stack .invalidStackOperation
      let stack ← popStack stack
      popStack stack
  | .dup2 => do
      need 2 stack .invalidStackOperation
      let vch1 ← stackTop 2 stack
      let vch2 ← stackTop 1 stack
      return vch2 :: vch1 :: stack
  | .dup3 => do
      need 3 stack .invalidStackOperation
      let vch1 ← stackTop 3 stack
      let vch2 ← stackTop 2 stack
      let vch3 ← stackTop 1 stack
      return vch3 :: vch2 :: vch1 :: stack
  | .over2 => do
      need 4 stack .invalidStackOperation
      let vch1 ← stackTop 4 stack
      let vch2 ← stackTop 3 stack
      return vch2 :: vch1 :: stack
  | .rot2 => do
      need 6 stack .invalidStackOperation
      let vch1 ← stackTop 6 stack
      let vch2 ← stackTop 5 stack
      let stack ← eraseStack 6 4 stack
      return vch2 :: vch1 :: stack
  | .swap2 => do
      need 4 stack .invalidStackOperation
      let stack ← swapStack 4 2 stack
      swapStack 3 1 stack
  | .ifDup => do
      need 1 stack .invalidStackOperation
      let vch ← stackTop 1 stack
      return if castToBool vch then vch :: stack else stack
  | .depth => return CScriptNum.serialize stack.length :: stack
  | .drop => do
      need 1 stack .invalidStackOperation
      popStack stack
  | .dup => do
      need 1 stack .invalidStackOperation
      let vch ← stackTop 1 stack
      return vch :: stack
  | .nip => do
      need 2 stack .invalidStackOperation
      eraseStack 2 1 stack
  | .copyOver => do
      need 2 stack .invalidStackOperation
      let vch ← stackTop 2 stack
      return vch :: stack
  | .rot => do
      need 3 stack .invalidStackOperation
      let stack ← swapStack 3 2 stack
      swapStack 2 1 stack
  | .swap => do
      need 2 stack .invalidStackOperation
      swapStack 2 1 stack
  | .tuck => do
      need 2 stack .invalidStackOperation
      let vch ← stackTop 1 stack
      insertStack 2 vch stack
  | .size => do
      need 1 stack .invalidStackOperation
      let vch ← stackTop 1 stack
      return CScriptNum.serialize vch.length :: stack

def executePick (roll : Bool) (stack : List Valtype) : Eval (List Valtype) := do
  need 2 stack .invalidStackOperation
  let vch ← stackTop 1 stack
  let bn ← scriptNum flags vch CScriptNum.nDefaultMaxNumSize
  let n := CScriptNum.getint bn
  let stack ← popStack stack
  demand (0 ≤ n ∧ n < stack.length) .invalidStackOperation
  let vch ← stackTop (n.toNat + 1) stack
  if roll then do
    let stack ← eraseStack (n.toNat + 1) n.toNat stack
    return vch :: stack
  else return vch :: stack

def pushResult (fValue verify : Bool) (serror : ScriptError) (stack : List Valtype) :
    Eval (List Valtype) :=
  let stack := vchOf fValue :: stack
  if verify then do
    demand (fValue = true) serror
    popStack stack
  else return stack

def executeEqual (verify : Bool) (stack : List Valtype) : Eval (List Valtype) := do
  need 2 stack .invalidStackOperation
  let vch1 ← stackTop 2 stack
  let vch2 ← stackTop 1 stack
  let stack ← popStack stack
  let stack ← popStack stack
  pushResult (vch1 == vch2) verify .equalVerify stack

def asserted (holds : Prop) [Decidable holds] : Eval Unit :=
  if holds then pure () else .stop .aborted

def NUM_MIN : Int := -2 ^ 63

namespace CScriptNum

def plus (value rhs : Int) : Eval Int := do
  asserted (rhs = 0 ∨ (0 < rhs ∧ value ≤ maxInt64 - rhs) ∨ (rhs < 0 ∧ NUM_MIN - rhs ≤ value))
  return value + rhs

def minus (value rhs : Int) : Eval Int := do
  asserted (rhs = 0 ∨ (0 < rhs ∧ NUM_MIN + rhs ≤ value) ∨ (rhs < 0 ∧ value ≤ maxInt64 + rhs))
  return value - rhs

def negated (value : Int) : Eval Int := do
  asserted (value ≠ NUM_MIN)
  return -value

def ofBool (value : Bool) : Int := if value then 1 else 0

end CScriptNum

def UnaryOp.apply (op : UnaryOp) (bn : Int) : Eval Int :=
  match op with
  | .add1 => CScriptNum.plus bn 1
  | .sub1 => CScriptNum.minus bn 1
  | .negate => CScriptNum.negated bn
  | .abs => if bn < 0 then CScriptNum.negated bn else pure bn
  | .not => pure (CScriptNum.ofBool (bn == 0))
  | .notEqual0 => pure (CScriptNum.ofBool (bn != 0))

def BinaryOp.apply (op : BinaryOp) (bn1 bn2 : Int) : Int :=
  match op with
  | .add => bn1 + bn2
  | .sub => bn1 - bn2
  | .boolAnd => CScriptNum.ofBool (bn1 != 0 && bn2 != 0)
  | .boolOr => CScriptNum.ofBool (bn1 != 0 || bn2 != 0)
  | .numEqual => CScriptNum.ofBool (bn1 == bn2)
  | .numEqualVerify => CScriptNum.ofBool (bn1 == bn2)
  | .numNotEqual => CScriptNum.ofBool (bn1 != bn2)
  | .lessThan => CScriptNum.ofBool (bn1 < bn2)
  | .greaterThan => CScriptNum.ofBool (bn2 < bn1)
  | .lessThanOrEqual => CScriptNum.ofBool (bn1 ≤ bn2)
  | .greaterThanOrEqual => CScriptNum.ofBool (bn2 ≤ bn1)
  | .min => if bn1 < bn2 then bn1 else bn2
  | .max => if bn2 < bn1 then bn1 else bn2

def executeUnary (op : UnaryOp) (stack : List Valtype) : Eval (List Valtype) := do
  need 1 stack .invalidStackOperation
  let vch ← stackTop 1 stack
  let bn ← scriptNum flags vch CScriptNum.nDefaultMaxNumSize
  let bn ← op.apply bn
  let stack ← popStack stack
  return CScriptNum.serialize bn :: stack

def executeBinary (op : BinaryOp) (stack : List Valtype) : Eval (List Valtype) := do
  need 2 stack .invalidStackOperation
  let vch1 ← stackTop 2 stack
  let bn1 ← scriptNum flags vch1 CScriptNum.nDefaultMaxNumSize
  let vch2 ← stackTop 1 stack
  let bn2 ← scriptNum flags vch2 CScriptNum.nDefaultMaxNumSize
  let stack ← popStack stack
  let stack ← popStack stack
  let stack := CScriptNum.serialize (op.apply bn1 bn2) :: stack
  if op = .numEqualVerify then do
    let vch ← stackTop 1 stack
    demand (castToBool vch = true) .numEqualVerify
    popStack stack
  else return stack

def executeWithin (stack : List Valtype) : Eval (List Valtype) := do
  need 3 stack .invalidStackOperation
  let vch1 ← stackTop 3 stack
  let bn1 ← scriptNum flags vch1 CScriptNum.nDefaultMaxNumSize
  let vch2 ← stackTop 2 stack
  let bn2 ← scriptNum flags vch2 CScriptNum.nDefaultMaxNumSize
  let vch3 ← stackTop 1 stack
  let bn3 ← scriptNum flags vch3 CScriptNum.nDefaultMaxNumSize
  let stack ← popStackTimes 3 stack
  return vchOf (bn2 ≤ bn1 && bn1 < bn3) :: stack

def HashOp.apply (op : HashOp) (vch : Valtype) : Valtype :=
  match op with
  | .ripemd160 => (ScriptCrypto.ripemd160 vch).toList
  | .sha1 => (ScriptCrypto.sha1 vch).toList
  | .sha256 => (ScriptCrypto.sha256 vch).toList
  | .hash160 => (ScriptCrypto.ripemd160 (ScriptCrypto.sha256 vch).toList).toList
  | .hash256 => (ScriptCrypto.sha256 (ScriptCrypto.sha256 vch).toList).toList

def executeHash (op : HashOp) (stack : List Valtype) : Eval (List Valtype) := do
  need 1 stack .invalidStackOperation
  let vch ← stackTop 1 stack
  let stack ← popStack stack
  return op.apply vch :: stack

def checkEncodings (vchSig vchPubKey : Valtype) : Eval Unit := do
  accept (checkSignatureEncoding flags vchSig)
  accept (checkPubKeyEncoding flags vchPubKey)

def executeCheckSig (verify : Bool) (pbegincodehash : CScript) (stack : List Valtype) :
    Eval (List Valtype) := do
  need 2 stack .invalidStackOperation
  let vchSig ← stackTop 2 stack
  let vchPubKey ← stackTop 1 stack
  -- Drop the signature, since there's no way for a signature to sign itself
  let scriptCode := (pbegincodehash.findAndDelete (CScript.pushData vchSig)).2
  checkEncodings flags vchSig vchPubKey
  let fSuccess ← Metered.tick (checker.checkSig vchSig vchPubKey scriptCode)
  let stack ← popStack stack
  let stack ← popStack stack
  pushResult fSuccess verify .checkSigVerify stack

def dropSignatures (stack : List Valtype) : Nat → Nat → CScript → Eval CScript
  | _, 0, scriptCode => pure scriptCode
  | isig, nSigsCount + 1, scriptCode => do
      let vchSig ← stackTop isig stack
      dropSignatures stack (isig + 1) nSigsCount
        (scriptCode.findAndDelete (CScript.pushData vchSig)).2

def matchSignatures (stack : List Valtype) (scriptCode : CScript) :
    Nat → Nat → Nat → Nat → Nat → Eval Bool
  | 0, _, _, _, _ => .stop .endless
  | fuel + 1, isig, ikey, nSigsCount, nKeysCount =>
      if nSigsCount = 0 then pure true
      else do
        let vchSig ← stackTop isig stack
        let vchPubKey ← stackTop ikey stack
        checkEncodings flags vchSig vchPubKey
        let fOk ← Metered.tick (checker.checkSig vchSig vchPubKey scriptCode)
        let isig := if fOk then isig + 1 else isig
        let nSigsCount := if fOk then nSigsCount - 1 else nSigsCount
        -- More signatures left than keys: too many have failed.
        if nKeysCount - 1 < nSigsCount then pure false
        else matchSignatures stack scriptCode fuel isig (ikey + 1) nSigsCount (nKeysCount - 1)

-- The new stack and the new operation count.
def executeCheckMultiSig (verify : Bool) (pbegincodehash : CScript) (stack : List Valtype)
    (nOpCount : Nat) : Eval (List Valtype × Nat) := do
  need 1 stack .invalidStackOperation
  let vch ← stackTop 1 stack
  let bn ← scriptNum flags vch CScriptNum.nDefaultMaxNumSize
  demand (0 ≤ CScriptNum.getint bn ∧ CScriptNum.getint bn ≤ 20) .pubkeyCount
  let nKeysCount := (CScriptNum.getint bn).toNat
  let nOpCount := nOpCount + nKeysCount
  demand (nOpCount ≤ 201) .opCount
  let ikey := 2
  let i := ikey + nKeysCount
  need i stack .invalidStackOperation
  let vch ← stackTop i stack
  let bn ← scriptNum flags vch CScriptNum.nDefaultMaxNumSize
  demand (0 ≤ CScriptNum.getint bn ∧ CScriptNum.getint bn ≤ nKeysCount) .sigCount
  let nSigsCount := (CScriptNum.getint bn).toNat
  let isig := i + 1
  let i := isig + nSigsCount
  need i stack .invalidStackOperation
  let scriptCode ← dropSignatures stack isig nSigsCount pbegincodehash
  let fSuccess ←
    matchSignatures flags checker stack scriptCode (nKeysCount + 1) isig ikey nSigsCount nKeysCount
  let stack ← popStackTimes (i - 1) stack
  -- A bug causes CHECKMULTISIG to consume one extra argument.
  need 1 stack .invalidStackOperation
  let dummy ← stackTop 1 stack
  demand (flags &&& SCRIPT_VERIFY_NULLDUMMY = 0 ∨ dummy.length = 0) .sigNullDummy
  let stack ← popStack stack
  let stack ← pushResult fSuccess verify .checkMultiSigVerify stack
  return (stack, nOpCount)

def executeCheckLockTimeVerify (stack : List Valtype) : Eval Unit :=
  if flags &&& SCRIPT_VERIFY_CHECKLOCKTIMEVERIFY = 0 then
    demand (flags &&& SCRIPT_VERIFY_DISCOURAGE_UPGRADABLE_NOPS = 0) .discourageUpgradableNops
  else do
    need 1 stack .invalidStackOperation
    let vch ← stackTop 1 stack
    let nLockTime ← scriptNum flags vch 5
    demand (0 ≤ nLockTime) .negativeLocktime
    demand (checker.checkLockTime nLockTime = true) .unsatisfiedLocktime

-- fExec: no enclosing branch is skipped.
def execute (instr : Instr) (fExec : Bool) (st : EvalState) : Eval EvalState :=
  match instr with
  | .number value => return { st with stack := CScriptNum.serialize value :: st.stack }
  | .nop => return st
  | .checkLockTimeVerify => do
      executeCheckLockTimeVerify flags checker st.stack
      return st
  | .upgradableNop => do
      demand (flags &&& SCRIPT_VERIFY_DISCOURAGE_UPGRADABLE_NOPS = 0) .discourageUpgradableNops
      return st
  | .ifElse negate =>
      if fExec then do
        need 1 st.stack .unbalancedConditional
        let vch ← stackTop 1 st.stack
        let stack ← popStack st.stack
        return { st with stack, vfExec := (castToBool vch != negate) :: st.vfExec }
      else return { st with vfExec := false :: st.vfExec }
  | .else =>
      match st.vfExec with
      | [] => .stop (.failed .unbalancedConditional)
      | back :: vfExec => return { st with vfExec := (!back) :: vfExec }
  | .endif =>
      match st.vfExec with
      | [] => .stop (.failed .unbalancedConditional)
      | _ :: vfExec => return { st with vfExec }
  | .verify => do
      need 1 st.stack .invalidStackOperation
      let vch ← stackTop 1 st.stack
      demand (castToBool vch = true) .verify
      let stack ← popStack st.stack
      return { st with stack }
  | .return => .stop (.failed .opReturn)
  | .toAltStack => do
      need 1 st.stack .invalidStackOperation
      let vch ← stackTop 1 st.stack
      let stack ← popStack st.stack
      return { st with stack, altstack := vch :: st.altstack }
  | .fromAltStack => do
      need 1 st.altstack .invalidAltstackOperation
      let vch ← stackTop 1 st.altstack
      let altstack ← popStack st.altstack
      return { st with stack := vch :: st.stack, altstack }
  | .onStack op => do
      let stack ← executeStackOp op st.stack
      return { st with stack }
  | .pick roll => do
      let stack ← executePick flags roll st.stack
      return { st with stack }
  | .equal verify => do
      let stack ← executeEqual verify st.stack
      return { st with stack }
  | .unary op => do
      let stack ← executeUnary flags op st.stack
      return { st with stack }
  | .binary op => do
      let stack ← executeBinary flags op st.stack
      return { st with stack }
  | .within => do
      let stack ← executeWithin flags st.stack
      return { st with stack }
  | .hash op => do
      let stack ← executeHash op st.stack
      return { st with stack }
  | .codeSeparator => return { st with pbegincodehash := st.pc }
  | .checkSig verify => do
      let stack ← executeCheckSig flags checker verify st.pbegincodehash st.stack
      return { st with stack }
  | .checkMultiSig verify => do
      let (stack, nOpCount) ←
        executeCheckMultiSig flags checker verify st.pbegincodehash st.stack st.nOpCount
      return { st with stack, nOpCount }
  | .bad => .stop (.failed .badOpcode)

end execution

end CryptoYen
