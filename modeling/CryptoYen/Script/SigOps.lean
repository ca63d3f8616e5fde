import CryptoYen.Script.Interpreter

set_option autoImplicit false

namespace CryptoYen

open Metered (Ends)

theorem forall_opcode (holds : UInt8 → Prop) (all : ∀ n : Fin 256, holds (UInt8.ofNat n))
    (opcode : UInt8) : holds opcode := by
  have found := all ⟨opcode.toNat, opcode.toNat_lt⟩
  rwa [show UInt8.ofNat opcode.toNat = opcode from UInt8.ofNat_toNat] at found

def isSmallInteger (opcode : UInt8) : Bool := OP_1 ≤ opcode && opcode ≤ OP_16

def decodeOpN (opcode : UInt8) : Int := opcode.toNat - 0x50

theorem ofOpcode_smallInteger (opcode : UInt8) (small : isSmallInteger opcode = true) :
    Instr.ofOpcode opcode = .number (decodeOpN opcode) ∧ ¬ opcode ≤ OP_PUSHDATA4 ∧
      ¬ OP_IF ≤ opcode := by
  refine forall_opcode (fun opcode => isSmallInteger opcode = true →
    Instr.ofOpcode opcode = .number (decodeOpN opcode) ∧ ¬ opcode ≤ OP_PUSHDATA4 ∧
      ¬ OP_IF ≤ opcode) ?_ opcode small
  decide +kernel

theorem ofVch_smallInteger (opcode : UInt8) (small : isSmallInteger opcode = true)
    (minimal : Bool) :
    CScriptNum.ofVch (CScriptNum.serialize (decodeOpN opcode)) minimal
      CScriptNum.nDefaultMaxNumSize = some (decodeOpN opcode) ∧
    CScriptNum.getint (decodeOpN opcode) = (opcode.toNat - 0x50 : Nat) := by
  refine forall_opcode (fun opcode => isSmallInteger opcode = true → ∀ minimal : Bool,
    CScriptNum.ofVch (CScriptNum.serialize (decodeOpN opcode)) minimal
      CScriptNum.nDefaultMaxNumSize = some (decodeOpN opcode) ∧
    CScriptNum.getint (decodeOpN opcode) = (opcode.toNat - 0x50 : Nat)) ?_ opcode small minimal
  decide +kernel

theorem ofOpcode_checkSig (opcode : UInt8) :
    (opcode = OP_CHECKSIG ∨ opcode = OP_CHECKSIGVERIFY →
      ∃ verify, Instr.ofOpcode opcode = .checkSig verify) ∧
    (opcode = OP_CHECKMULTISIG ∨ opcode = OP_CHECKMULTISIGVERIFY →
      ∃ verify, Instr.ofOpcode opcode = .checkMultiSig verify) := by
  constructor
  · rintro (rfl | rfl) <;> exact ⟨_, rfl⟩
  · rintro (rfl | rfl) <;> exact ⟨_, rfl⟩

theorem ofOpcode_no_sig (opcode : UInt8)
    (single : ¬ (opcode = OP_CHECKSIG ∨ opcode = OP_CHECKSIGVERIFY))
    (multi : ¬ (opcode = OP_CHECKMULTISIG ∨ opcode = OP_CHECKMULTISIGVERIFY)) :
    (Instr.ofOpcode opcode).checksSigs = false := by
  refine forall_opcode (fun opcode => ¬ (opcode = OP_CHECKSIG ∨ opcode = OP_CHECKSIGVERIFY) →
    ¬ (opcode = OP_CHECKMULTISIG ∨ opcode = OP_CHECKMULTISIGVERIFY) →
    (Instr.ofOpcode opcode).checksSigs = false) ?_ opcode single multi
  decide +kernel

theorem ofOpcode_push (opcode : UInt8) (push : opcode ≤ OP_16) (above : ¬ opcode ≤ OP_PUSHDATA4) :
    (∃ value, Instr.ofOpcode opcode = .number value ∧
      CScript.getSigOpCount (CScriptNum.serialize value) true = 0) ∨
    Instr.ofOpcode opcode = .bad := by
  have cases_ : Instr.ofOpcode opcode = .bad ∨ (Instr.ofOpcode opcode = .number (decodeOpN opcode) ∧
      CScript.getSigOpCount (CScriptNum.serialize (decodeOpN opcode)) true = 0) := by
    refine forall_opcode (fun opcode => opcode ≤ OP_16 → ¬ opcode ≤ OP_PUSHDATA4 →
      Instr.ofOpcode opcode = .bad ∨ (Instr.ofOpcode opcode = .number (decodeOpN opcode) ∧
        CScript.getSigOpCount (CScriptNum.serialize (decodeOpN opcode)) true = 0)) ?_ opcode push
      above
    decide +kernel
  rcases cases_ with bad | number
  · exact Or.inr bad
  · exact Or.inl ⟨_, number⟩

/-- The small integer that was read last is on top of the stack, unless its branch is skipped. -/
def Primed (lastOpcode : UInt8) (st : EvalState) : Prop :=
  isSmallInteger lastOpcode = true → st.vfExec.all id = true →
    st.stack[0]? = some (CScriptNum.serialize (decodeOpN lastOpcode))

section counting

variable (flags : BitVec 32)

theorem opSigOps_covers (lastOpcode opcode : UInt8) (st : EvalState)
    (primed : Primed lastOpcode st) (fExec : st.vfExec.all id = true) :
    (Instr.ofOpcode opcode).Covers flags st.stack (CScript.opSigOps true lastOpcode opcode) := by
  rw [CScript.opSigOps]
  split
  next single =>
    obtain ⟨verify, same⟩ := (ofOpcode_checkSig opcode).1 single
    rw [same]
    exact Nat.le_refl 1
  next no_single =>
    split
    next multi =>
      obtain ⟨verify, same⟩ := (ofOpcode_checkSig opcode).2 multi
      rw [same]
      intro vch bn top parsed few
      split
      next counted =>
        have small : isSmallInteger lastOpcode = true := by
          simpa [isSmallInteger] using counted.2
        obtain ⟨reads, value⟩ := ofVch_smallInteger lastOpcode small (fRequireMinimal flags)
        have pushed := primed small fExec
        rw [top, Option.some_inj] at pushed
        rw [pushed, reads, Option.some_inj] at parsed
        rw [← parsed]
        exact Int.le_of_eq value
      next => exact few
    next no_multi =>
      exact Instr.covers_of_not_checksSigs flags _ _ _ (ofOpcode_no_sig opcode no_single no_multi)

variable [ScriptCrypto] (checker : BaseSignatureChecker)

theorem evalStep_ok (st next : EvalState) (opcode : UInt8) (vchPushValue : Valtype) (pc : CScript)
    (found : CScript.getOp st.pc = some (opcode, vchPushValue, pc))
    (ok : (evalStep flags checker st).result = .ok next) :
    ∃ nOpCount, (executeOp flags checker opcode vchPushValue (st.vfExec.all id)
      { st with pc, nOpCount }).result = .ok next := by
  rw [evalStep, found] at ok
  obtain ⟨_, _, ok⟩ := Metered.bind_ok _ _ _ ok
  obtain ⟨_, _, ok⟩ := Metered.bind_ok _ _ _ ok
  obtain ⟨_, _, ok⟩ := Metered.bind_ok _ _ _ ok
  obtain ⟨reached, executed, ok⟩ := Metered.bind_ok _ _ _ ok
  obtain ⟨_, _, ok⟩ := Metered.bind_ok _ _ _ ok
  cases ok
  exact ⟨_, executed⟩

theorem evalStep_primed (st next : EvalState) (opcode : UInt8) (vchPushValue : Valtype)
    (pc : CScript) (found : CScript.getOp st.pc = some (opcode, vchPushValue, pc))
    (ok : (evalStep flags checker st).result = .ok next) : Primed opcode next := by
  obtain ⟨nOpCount, executed⟩ := evalStep_ok flags checker st next opcode vchPushValue pc found ok
  intro small fExec
  obtain ⟨number, no_push, no_if⟩ := ofOpcode_smallInteger opcode small
  rw [executeOp, if_neg (fun push => no_push push.2)] at executed
  split at executed
  · rw [number] at executed
    cases executed
    rfl
  next skipped =>
    cases executed
    exact absurd (Or.inl fExec) skipped

theorem evalLoop_sigOps (fuel : Nat) (st : EvalState) (lastOpcode : UInt8)
    (primed : Primed lastOpcode st) (enough : st.pc.length ≤ fuel) :
    Ends Halt.Harmless (CScript.sigOpCountFrom true fuel st.pc lastOpcode) (fun _ => True)
      (evalLoop flags checker fuel st) := by
  induction fuel generalizing st lastOpcode with
  | zero =>
      rw [evalLoop, if_pos (List.length_eq_zero_iff.mp (Nat.le_zero.mp enough))]
      exact Ends.pure st trivial
  | succ fuel ih =>
      rw [evalLoop]
      split
      · exact Ends.pure st trivial
      · cases found : CScript.getOp st.pc with
        | none =>
            rw [evalStep, found]
            exact Ends.stop _ trivial
        | some op =>
            obtain ⟨opcode, vchPushValue, pc⟩ := op
            rw [CScript.sigOpCountFrom, found]
            have round := evalStep_ends flags checker st opcode vchPushValue pc _ found
              (opSigOps_covers flags lastOpcode opcode st primed)
            refine round.keep.bind fun next reached => ?_
            have shorter := CScript.getOp_shorter st.pc pc opcode vchPushValue found
            have onward := ih next opcode
              (evalStep_primed flags checker st next opcode vchPushValue pc found reached.1)
            rw [reached.2.pc] at onward
            exact onward (by omega)

theorem evalScript_cost (stack : List Valtype) (script : CScript) :
    (evalScript flags checker stack script).cost ≤ script.getSigOpCount true := by
  rw [evalScript]
  split
  · exact Nat.zero_le _
  · have fresh : Primed OP_INVALIDOPCODE (.start stack script) := fun small => by cases small
    have loop := evalLoop_sigOps flags checker script.length (.start stack script) _ fresh
      (Nat.le_refl _)
    have ended (st : EvalState) : Ends Halt.Harmless 0 (fun _ => True) (do
        demand (st.vfExec = []) .unbalancedConditional
        return st.stack) :=
      (demand_ends _ _).bind_free fun _ _ => Ends.pure st.stack trivial
    exact (loop.bind_last fun st _ => ended st).cost_le

/-- What a push leaves on the stack: its data, or a number whose opcode carries no data. -/
def Pushed (data top : Valtype) : Prop :=
  top = data ∨ CScript.getSigOpCount top true = 0

theorem evalStep_push (st next : EvalState) (opcode : UInt8) (vchPushValue : Valtype)
    (pc : CScript) (found : CScript.getOp st.pc = some (opcode, vchPushValue, pc))
    (push : opcode ≤ OP_16) (outer : st.vfExec = [])
    (ok : (evalStep flags checker st).result = .ok next) :
    next.pc = pc ∧ next.vfExec = [] ∧
      ∃ top, next.stack = top :: st.stack ∧ Pushed vchPushValue top := by
  obtain ⟨nOpCount, executed⟩ := evalStep_ok flags checker st next opcode vchPushValue pc found ok
  rw [outer, List.all_nil, executeOp] at executed
  split at executed
  · obtain ⟨_, _, executed⟩ := Metered.bind_ok _ _ _ executed
    cases executed
    exact ⟨rfl, rfl, vchPushValue, rfl, Or.inl rfl⟩
  next no_data =>
    rw [if_pos (Or.inl rfl)] at executed
    have above : ¬ opcode ≤ OP_PUSHDATA4 := fun below => no_data ⟨rfl, below⟩
    rcases ofOpcode_push opcode push above with ⟨value, number, silent⟩ | bad
    · rw [number] at executed
      cases executed
      exact ⟨rfl, rfl, _, rfl, Or.inr silent⟩
    · rw [bad] at executed
      cases executed

omit [ScriptCrypto] in
theorem CScript.isPushOnlyFrom_succ (fuel : Nat) (pc : CScript) (more : pc ≠ []) :
    isPushOnlyFrom (fuel + 1) pc =
      match getOp pc with
      | none => false
      | some (opcode, _, rest) => opcode ≤ OP_16 && isPushOnlyFrom fuel rest := by
  match pc, more with
  | _ :: _, _ => rfl

omit [ScriptCrypto] in
theorem CScript.lastPush_succ (fuel : Nat) (pc : CScript) (data : Valtype) (more : pc ≠ []) :
    lastPush (fuel + 1) pc data =
      match getOp pc with
      | none => none
      | some (opcode, data, rest) => if OP_16 < opcode then none else lastPush fuel rest data := by
  match pc, more with
  | _ :: _, _ => rfl

theorem evalLoop_lastPush (fuel : Nat) (st final : EvalState) (data : Valtype)
    (pushes : CScript.isPushOnlyFrom fuel st.pc = true) (outer : st.vfExec = [])
    (last : ∀ top, st.stack.head? = some top → Pushed data top)
    (ok : (evalLoop flags checker fuel st).result = .ok final) (top : Valtype)
    (left : final.stack.head? = some top) :
    ∃ data', CScript.lastPush fuel st.pc data = some data' ∧ Pushed data' top := by
  induction fuel generalizing st data with
  | zero =>
      rw [evalLoop] at ok
      split at ok
      next ended =>
        cases ok
        rw [ended]
        exact ⟨data, rfl, last top left⟩
      next => cases ok
  | succ fuel ih =>
      rw [evalLoop] at ok
      split at ok
      next ended =>
        cases ok
        rw [ended]
        exact ⟨data, rfl, last top left⟩
      next more =>
        obtain ⟨next, round, ok⟩ := Metered.bind_ok _ _ _ ok
        obtain ⟨opcode, vchPushValue, pc, found, _⟩ :=
          (evalStep_follows flags checker st).ok next round
        rw [CScript.isPushOnlyFrom_succ fuel st.pc more, found] at pushes
        simp only [Bool.and_eq_true, decide_eq_true_eq] at pushes
        obtain ⟨at_pc, still, pushed, stack, same⟩ :=
          evalStep_push flags checker st next opcode vchPushValue pc found pushes.1 outer round
        rw [CScript.lastPush_succ fuel st.pc data more, found]
        dsimp only
        rw [if_neg (UInt8.not_lt.mpr pushes.1), ← at_pc]
        refine ih next vchPushValue (at_pc ▸ pushes.2) still ?_ ok
        intro top' head
        rw [stack, List.head?_cons, Option.some_inj] at head
        rwa [← head]

theorem lastPush_of_redeem (scriptSig redeem : CScript) (rest : List Valtype)
    (pushes : scriptSig.isPushOnly = true)
    (ok : (verifyInput flags checker scriptSig).result = .ok (redeem :: rest)) :
    ∃ data, CScript.lastPush scriptSig.length scriptSig [] = some data ∧ Pushed data redeem := by
  obtain ⟨_, _, ok⟩ := Metered.bind_ok _ _ _ ok
  rw [evalScript] at ok
  split at ok
  · cases ok
  · obtain ⟨final, evaluated, ended⟩ := Metered.bind_ok _ _ _ (Metered.mapError_ok _ _ _ ok)
    obtain ⟨_, _, ended⟩ := Metered.bind_ok _ _ _ ended
    have stack : final.stack = redeem :: rest := Except.ok.inj ended
    refine evalLoop_lastPush flags checker scriptSig.length (.start [] scriptSig) final [] pushes
      rfl (fun top none_there => ?_) evaluated redeem (by rw [stack]; rfl)
    cases none_there

/-- No evaluation of a script calls CheckSig more often than the accurate count of its signature
operations, nor that of a redeem script more often than the count for its output. -/
theorem evalScript_sigOps :
    (∀ stack script, (evalScript flags checker stack script).cost ≤
      CScript.getSigOpCount script true) ∧
    ∀ scriptSig scriptPubKey stack redeem,
      ReachesRedeem flags checker scriptSig scriptPubKey stack redeem →
      (evalScript flags checker stack redeem).cost ≤
        CScript.getP2SHSigOpCount scriptPubKey scriptSig := by
  refine ⟨evalScript_cost flags checker, ?_⟩
  intro scriptSig scriptPubKey stack redeem reached
  obtain ⟨stackCopy, _, _, input, _, p2sh, redeemed⟩ := reached
  obtain ⟨pushes, rfl⟩ := redeemScript_ok scriptSig redeem stackCopy stack redeemed
  obtain ⟨data, last, pushed⟩ :=
    lastPush_of_redeem flags checker scriptSig redeem stack pushes input
  have bound := evalScript_cost flags checker stack redeem
  rw [CScript.getP2SHSigOpCount, if_pos p2sh.2, last]
  rcases pushed with rfl | silent
  · exact bound
  · rw [silent] at bound
    exact Nat.le_trans bound (Nat.zero_le _)

end counting

def hashedOutput : CScript := [OP_HASH160, 0x14] ++ List.replicate 20 0 ++ [OP_EQUAL]
def hashedInput : CScript :=
  CScript.pushData [0x30] ++ CScript.pushData [2] ++ CScript.pushData [OP_CHECKSIG]

def everySignature : BaseSignatureChecker := ⟨fun _ _ _ => true, fun _ => true⟩

theorem hashedInput_reaches :
    @ReachesRedeem zeroDigests SCRIPT_VERIFY_P2SH everySignature hashedInput hashedOutput
      [[2], [0x30]] [OP_CHECKSIG] := by
  refine @ReachesRedeem.intro zeroDigests _ _ _ _ [[OP_CHECKSIG], [2], [0x30]] _ _ ?_ ?_ ?_ ?_
  · rfl
  · rfl
  · decide
  · rfl

theorem evalScript_sigOps_redeem :
    (@evalScript zeroDigests SCRIPT_VERIFY_P2SH everySignature [[2], [0x30]] [OP_CHECKSIG]).cost ≤
        CScript.getP2SHSigOpCount hashedOutput hashedInput ∧
      CScript.getP2SHSigOpCount hashedOutput hashedInput = 1 := by
  constructor
  · exact (@evalScript_sigOps SCRIPT_VERIFY_P2SH zeroDigests everySignature).2 hashedInput
      hashedOutput _ _ hashedInput_reaches
  · decide

end CryptoYen
