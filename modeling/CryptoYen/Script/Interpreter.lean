import CryptoYen.Script.Execution

set_option autoImplicit false

namespace CryptoYen

open Metered (Ends)

def Halt.caught : Halt → Halt
  | .thrown => .failed .unknownError
  | halt => halt

section evaluation

variable [ScriptCrypto] (flags : BitVec 32) (checker : BaseSignatureChecker)

def executeOp (opcode : UInt8) (vchPushValue : Valtype) (fExec : Bool) (st : EvalState) :
    Eval EvalState :=
  if fExec = true ∧ opcode ≤ OP_PUSHDATA4 then do
    demand (fRequireMinimal flags = false ∨ checkMinimalPush vchPushValue opcode = true)
      .minimalData
    return { st with stack := vchPushValue :: st.stack }
  else if fExec = true ∨ (OP_IF ≤ opcode ∧ opcode ≤ OP_ENDIF) then
    execute flags checker (.ofOpcode opcode) fExec st
  else return st

def evalStep (st : EvalState) : Eval EvalState :=
  match CScript.getOp st.pc with
  | none => .stop (.failed .badOpcode)
  | some (opcode, vchPushValue, pc) => do
      demand (vchPushValue.length ≤ MAX_SCRIPT_ELEMENT_SIZE) .pushSize
      let nOpCount := if OP_16 < opcode then st.nOpCount + 1 else st.nOpCount
      demand (opcode ≤ OP_16 ∨ nOpCount ≤ 201) .opCount
      demand (isDisabledOpcode opcode = false) .disabledOpcode
      let next ←
        executeOp flags checker opcode vchPushValue (st.vfExec.all id) { st with pc, nOpCount }
      demand (next.stack.length + next.altstack.length ≤ 1000) .stackSize
      return next

def evalLoop : Nat → EvalState → Eval EvalState
  | fuel, st =>
      if st.pc = [] then return st
      else
        match fuel with
        | 0 => .stop .endless
        | fuel + 1 => do
            let next ← evalStep flags checker st
            evalLoop fuel next

def EvalState.start (stack : List Valtype) (script : CScript) : EvalState :=
  ⟨script, script, stack, [], [], 0⟩

-- Every operation consumes a byte, so the script's length is fuel enough.
def evalScript (stack : List Valtype) (script : CScript) : Eval (List Valtype) :=
  if 10000 < script.length then .stop (.failed .scriptSize)
  else
    Metered.mapError Halt.caught do
      let st ← evalLoop flags checker script.length (.start stack script)
      demand (st.vfExec = []) .unbalancedConditional
      return st.stack

def verifyInput (scriptSig : CScript) : Eval (List Valtype) := do
  demand (flags &&& SCRIPT_VERIFY_SIGPUSHONLY = 0 ∨ scriptSig.isPushOnly = true) .sigPushOnly
  evalScript flags checker [] scriptSig

def demandTrue (stack : List Valtype) : Eval Unit := do
  need 1 stack .evalFalse
  let back ← stackTop 1 stack
  demand (castToBool back = true) .evalFalse

def verifyOutput (scriptPubKey : CScript) (stack : List Valtype) : Eval Unit := do
  let stack ← evalScript flags checker stack scriptPubKey
  demandTrue stack

def redeemScript (scriptSig : CScript) (stackCopy : List Valtype) :
    Eval (CScript × List Valtype) := do
  demand (scriptSig.isPushOnly = true) .sigPushOnly
  asserted (stackCopy ≠ [])
  let pubKey2 ← stackTop 1 stackCopy
  let stackCopy ← popStack stackCopy
  return (pubKey2, stackCopy)

def verifyRedeem (scriptSig : CScript) (stackCopy : List Valtype) : Eval Unit := do
  let redeem ← redeemScript scriptSig stackCopy
  let stack ← evalScript flags checker redeem.2 redeem.1
  demandTrue stack

def verifyScript (scriptSig scriptPubKey : CScript) : Eval Unit := do
  let stackCopy ← verifyInput flags checker scriptSig
  verifyOutput flags checker scriptPubKey stackCopy
  if flags &&& SCRIPT_VERIFY_P2SH ≠ 0 ∧ scriptPubKey.isPayToScriptHash = true then
    verifyRedeem flags checker scriptSig stackCopy
  else return ()

inductive Reaches (stack : List Valtype) (script : CScript) : List UInt8 → EvalState → Prop
  | start (short : script.length ≤ 10000) : Reaches stack script [] (.start stack script)
  | step (read : List UInt8) (st next : EvalState) (opcode : UInt8) (vchPushValue : Valtype)
      (pc : CScript) (before : Reaches stack script read st)
      (found : CScript.getOp st.pc = some (opcode, vchPushValue, pc))
      (continues : (evalStep flags checker st).result = .ok next) :
      Reaches stack script (opcode :: read) next

/-- VerifyScript comes to evaluate the redeem script on this stack. -/
inductive ReachesRedeem (scriptSig scriptPubKey : CScript) : List Valtype → CScript → Prop
  | intro (stackCopy stack : List Valtype) (pubKey2 : CScript)
      (input : (verifyInput flags checker scriptSig).result = .ok stackCopy)
      (output : (verifyOutput flags checker scriptPubKey stackCopy).result = .ok ())
      (p2sh : flags &&& SCRIPT_VERIFY_P2SH ≠ 0 ∧ scriptPubKey.isPayToScriptHash = true)
      (redeem : (redeemScript scriptSig stackCopy).result = .ok (pubKey2, stack)) :
      ReachesRedeem scriptSig scriptPubKey stack pubKey2

inductive Evaluates (scriptSig scriptPubKey : CScript) : List Valtype → CScript → Prop
  | input
      (allowed : flags &&& SCRIPT_VERIFY_SIGPUSHONLY = 0 ∨ scriptSig.isPushOnly = true) :
      Evaluates scriptSig scriptPubKey [] scriptSig
  | output (stack : List Valtype) (ok : (verifyInput flags checker scriptSig).result = .ok stack) :
      Evaluates scriptSig scriptPubKey stack scriptPubKey
  | redeem (stack : List Valtype) (script : CScript)
      (reached : ReachesRedeem flags checker scriptSig scriptPubKey stack script) :
      Evaluates scriptSig scriptPubKey stack script

end evaluation

structure EvalState.Sound (st : EvalState) : Prop where
  elements : ∀ vch ∈ st.stack ++ st.altstack, vch.length ≤ MAX_SCRIPT_ELEMENT_SIZE
  size : st.stack.length + st.altstack.length ≤ 1000
  count : st.nOpCount ≤ 201

structure Follows (st : EvalState) (opcode : UInt8) (pc : CScript) (next : EvalState) : Prop where
  pc : next.pc = pc
  keeps : KeepsSmall (st.stack ++ st.altstack) (next.stack ++ next.altstack)
  counted : (if OP_16 < opcode then st.nOpCount + 1 else st.nOpCount) ≤ next.nOpCount
  limited : st.nOpCount ≤ 201 → next.nOpCount ≤ 201
  size : next.stack.length + next.altstack.length ≤ 1000

theorem Follows.sound {st next : EvalState} {opcode : UInt8} {pc : CScript}
    (follows : Follows st opcode pc next) (sound : st.Sound) : next.Sound where
  elements := by
    intro vch mem
    rcases follows.keeps vch mem with mem | small
    · exact sound.elements vch mem
    · exact small
  size := follows.size
  count := follows.limited sound.count

def Instr.checksSigs : Instr → Bool
  | .checkSig _ | .checkMultiSig _ => true
  | _ => false

theorem Instr.covers_of_not_checksSigs (flags : BitVec 32) (stack : List Valtype) (limit : Nat)
    (instr : Instr) (none_asked : instr.checksSigs = false) : instr.Covers flags stack limit := by
  cases instr <;> trivial

theorem conditional_checksSigs (opcode : UInt8) (low : OP_IF ≤ opcode) (high : opcode ≤ OP_ENDIF) :
    (Instr.ofOpcode opcode).checksSigs = false := by
  have all : ∀ n : Fin 256, OP_IF ≤ UInt8.ofNat n → UInt8.ofNat n ≤ OP_ENDIF →
      (Instr.ofOpcode (UInt8.ofNat n)).checksSigs = false := by
    decide +kernel
  have same : UInt8.ofNat opcode.toNat = opcode := UInt8.ofNat_toNat
  have bound : opcode.toNat < 256 := opcode.toNat_lt
  have found := all ⟨opcode.toNat, bound⟩
  rw [same] at found
  exact found low high

section steps

variable [ScriptCrypto] (flags : BitVec 32) (checker : BaseSignatureChecker)

theorem executeOp_ends (opcode : UInt8) (vchPushValue : Valtype) (fExec : Bool) (st : EvalState)
    (limit : Nat) (small : vchPushValue.length ≤ MAX_SCRIPT_ELEMENT_SIZE)
    (covers : fExec = true → (Instr.ofOpcode opcode).Covers flags st.stack limit) :
    Ends Halt.Harmless limit (Moves st) (executeOp flags checker opcode vchPushValue fExec st) := by
  rw [executeOp]
  split
  · refine (demand_ends _ _).bind_free fun _ _ => ?_
    exact Ends.pure _ (Moves.on_stack st _ (keepsSmall_cons small (keepsSmall_drop 0 _)))
  next =>
    split
    next runs =>
      refine execute_ends flags checker _ fExec st limit ?_
      rcases runs with fExec | conditional
      · exact covers fExec
      · exact Instr.covers_of_not_checksSigs flags _ limit _
          (conditional_checksSigs opcode conditional.1 conditional.2)
    next => exact Ends.pure st (Moves.refl st)

theorem evalStep_ends (st : EvalState) (opcode : UInt8) (vchPushValue : Valtype) (pc : CScript)
    (limit : Nat) (found : CScript.getOp st.pc = some (opcode, vchPushValue, pc))
    (covers : st.vfExec.all id = true → (Instr.ofOpcode opcode).Covers flags st.stack limit) :
    Ends Halt.Harmless limit (Follows st opcode pc) (evalStep flags checker st) := by
  rw [evalStep, found]
  refine (demand_ends _ _).bind_free fun _ small => ?_
  refine (demand_ends _ _).bind_free fun _ few => ?_
  refine (demand_ends _ _).bind_free fun _ _ => ?_
  generalize counted : (if OP_16 < opcode then st.nOpCount + 1 else st.nOpCount) = nOpCount at few
  refine (executeOp_ends flags checker opcode vchPushValue _ { st with pc, nOpCount } limit small
    covers).bind_last fun next moves => ?_
  refine (demand_ends _ _).bind_free fun _ size => ?_
  refine Ends.pure next ⟨moves.pc, moves.keeps, ?_, fun before => moves.limited ?_, size⟩
  · rw [counted]
    exact moves.counted
  · show nOpCount ≤ 201
    rcases few with push | few
    · rw [← counted, if_neg (UInt8.not_lt.mpr push)]
      exact before
    · exact few

theorem evalStep_follows (st : EvalState) :
    Ends Halt.Harmless 20
      (fun next => ∃ opcode vchPushValue pc,
        CScript.getOp st.pc = some (opcode, vchPushValue, pc) ∧ Follows st opcode pc next)
      (evalStep flags checker st) := by
  cases found : CScript.getOp st.pc with
  | none =>
      rw [evalStep, found]
      exact Ends.stop _ trivial
  | some op =>
      obtain ⟨opcode, vchPushValue, pc⟩ := op
      have covers : (Instr.ofOpcode opcode).Covers flags st.stack 20 := by
        cases Instr.ofOpcode opcode with
        | checkSig verify => exact (by decide : 1 ≤ 20)
        | checkMultiSig verify => exact fun _ _ _ _ few => few
        | _ => trivial
      refine (evalStep_ends flags checker st opcode vchPushValue pc 20 found
        fun _ => covers).mono (Nat.le_refl _) fun next follows => ?_
      exact ⟨opcode, vchPushValue, pc, rfl, follows⟩

variable (stack : List Valtype) (script : CScript)

theorem Reaches.sound (read : List UInt8) (st : EvalState)
    (reaches : Reaches flags checker stack script read st)
    (sound : (EvalState.start stack script).Sound) :
    st.Sound ∧ read.countP (OP_16 < ·) ≤ st.nOpCount := by
  induction reaches with
  | start short => exact ⟨sound, Nat.le_refl 0⟩
  | step read st next opcode vchPushValue pc before found continues ih =>
      obtain ⟨sound, counted⟩ := ih
      obtain ⟨opcode', _, _, found', follows⟩ := (evalStep_follows flags checker st).ok next continues
      rw [found] at found'
      cases found'
      refine ⟨follows.sound sound, ?_⟩
      have more := follows.counted
      rw [List.countP_cons]
      by_cases above : OP_16 < opcode
      · rw [if_pos above] at more
        rw [if_pos (decide_eq_true above)]
        omega
      · rw [if_neg above] at more
        rw [if_neg (by simpa using above)]
        omega

theorem evalLoop_ends (fuel : Nat) (read : List UInt8) (st : EvalState)
    (reaches : Reaches flags checker stack script read st) (enough : st.pc.length ≤ fuel) :
    Ends Halt.Harmless (20 * fuel) (fun final => ∃ read, Reaches flags checker stack script read final)
      (evalLoop flags checker fuel st) := by
  induction fuel generalizing read st with
  | zero =>
      rw [evalLoop, if_pos (List.length_eq_zero_iff.mp (Nat.le_zero.mp enough))]
      exact Ends.pure st ⟨read, reaches⟩
  | succ fuel ih =>
      rw [evalLoop]
      split
      · exact Ends.pure st ⟨read, reaches⟩
      · rw [Nat.mul_succ, Nat.add_comm]
        refine (evalStep_follows flags checker st).keep.bind fun next round => ?_
        obtain ⟨ok, opcode, vchPushValue, pc, found, follows⟩ := round
        have shorter := CScript.getOp_shorter st.pc pc opcode vchPushValue found
        refine ih (opcode :: read) next
          (.step read st next opcode vchPushValue pc reaches found ok) ?_
        rw [follows.pc]
        omega

theorem evalScript_ends :
    Ends Halt.Harmless (20 * 10000)
      (fun final => ∃ read st, Reaches flags checker stack script read st ∧ st.stack = final)
      (evalScript flags checker stack script) := by
  rw [evalScript]
  split
  · exact Ends.stop _ trivial
  next long =>
    have short : script.length ≤ 10000 := Nat.le_of_not_lt long
    have loop := evalLoop_ends flags checker stack script script.length [] _ (.start short)
      (Nat.le_refl _)
    have calms (halt : Halt) (harmless : halt.Harmless) : halt.caught.Harmless := by
      cases halt <;> trivial
    refine (Ends.bind_last (loop.mono (Nat.mul_le_mul_left 20 short) fun _ post => post)
      fun st reached => ?_).mapError Halt.caught calms
    obtain ⟨read, reaches⟩ := reached
    refine (demand_ends _ _).bind_free fun _ _ => ?_
    exact Ends.pure st.stack ⟨read, st, reaches, rfl⟩

omit [ScriptCrypto] in
theorem demandTrue_ends : Ends Halt.Harmless 0 (fun _ => stack ≠ []) (demandTrue stack) := by
  refine (need_ends stack 1 _).bind_free fun _ enough => ?_
  refine (stackTop_ends stack 0 enough).bind_free fun back _ => ?_
  refine (demand_ends _ _).mono (Nat.le_refl 0) fun _ _ => ?_
  exact List.length_pos_iff.mp enough

theorem evalScript_p2sh_empty (p2sh : script.isPayToScriptHash = true) (final : List Valtype) :
    (evalScript flags checker [] script).result ≠ .ok final := by
  match script, p2sh with
  | [], p2sh => cases p2sh
  | opcode :: rest, p2sh =>
      simp only [CScript.isPayToScriptHash, Bool.and_eq_true, beq_iff_eq, List.getElem?_cons_zero,
        Option.some_inj] at p2sh
      obtain ⟨⟨⟨length, rfl⟩, _⟩, _⟩ := p2sh
      rw [evalScript, if_neg (by omega), length]
      have step : evalStep flags checker (.start [] (OP_HASH160 :: rest)) =
          .stop (.failed .invalidStackOperation) := rfl
      have more : (EvalState.start [] (OP_HASH160 :: rest)).pc ≠ [] := List.cons_ne_nil _ _
      rw [evalLoop, if_neg more, step]
      intro ok
      cases ok

omit [ScriptCrypto] in
theorem redeemScript_ok (scriptSig pubKey2 : CScript) (stackCopy rest : List Valtype)
    (ok : (redeemScript scriptSig stackCopy).result = .ok (pubKey2, rest)) :
    scriptSig.isPushOnly = true ∧ stackCopy = pubKey2 :: rest := by
  obtain ⟨_, pushOnly, ok⟩ := Metered.bind_ok _ _ _ ok
  obtain ⟨_, _, ok⟩ := Metered.bind_ok _ _ _ ok
  have pushes := (demand_ends (scriptSig.isPushOnly = true) .sigPushOnly).ok _ pushOnly
  refine ⟨pushes, ?_⟩
  cases stackCopy with
  | nil => cases ok
  | cons top below =>
      cases ok
      rfl

variable (scriptSig scriptPubKey : CScript)

theorem verifyInput_ends :
    Ends Halt.Harmless (20 * 10000)
      (fun final => ∃ read st, Reaches flags checker [] scriptSig read st ∧ st.stack = final)
      (verifyInput flags checker scriptSig) :=
  (demand_ends _ _).bind_free fun _ _ => evalScript_ends flags checker [] scriptSig

theorem verifyOutput_ends (stackCopy : List Valtype) :
    Ends Halt.Harmless (20 * 10000) (fun _ => True)
      (verifyOutput flags checker scriptPubKey stackCopy) :=
  (evalScript_ends flags checker stackCopy scriptPubKey).bind_last fun stack _ =>
    (demandTrue_ends stack).mono (Nat.le_refl 0) fun _ _ => trivial

theorem verifyOutput_p2sh (p2sh : scriptPubKey.isPayToScriptHash = true)
    (stackCopy : List Valtype)
    (ok : (verifyOutput flags checker scriptPubKey stackCopy).result = .ok ()) :
    stackCopy ≠ [] := by
  rintro rfl
  obtain ⟨final, evaluated, _⟩ := Metered.bind_ok _ _ _ ok
  exact evalScript_p2sh_empty flags checker scriptPubKey p2sh final evaluated

theorem verifyRedeem_ends (stackCopy : List Valtype) (left : stackCopy ≠ []) :
    Ends Halt.Harmless (20 * 10000) (fun _ => True)
      (verifyRedeem flags checker scriptSig stackCopy) := by
  have redeemed : Ends Halt.Harmless 0 (fun _ => True) (redeemScript scriptSig stackCopy) := by
    refine (demand_ends _ _).bind_free fun _ _ => ?_
    refine (asserted_ends _ left).bind_free fun _ _ => ?_
    have enough := List.length_pos_iff.mpr left
    refine (stackTop_ends stackCopy 0 enough).bind_free fun pubKey2 _ => ?_
    refine (popStack_ends stackCopy enough).bind_free fun rest _ => ?_
    exact Ends.pure (pubKey2, rest) trivial
  refine redeemed.bind_free fun redeem _ => ?_
  refine (evalScript_ends flags checker redeem.2 redeem.1).bind_last fun stack _ => ?_
  exact (demandTrue_ends stack).mono (Nat.le_refl 0) fun _ _ => trivial

theorem verifyScript_ends :
    Ends Halt.Harmless (20 * 10000 + (20 * 10000 + 20 * 10000)) (fun _ => True)
      (verifyScript flags checker scriptSig scriptPubKey) := by
  refine (verifyInput_ends flags checker scriptSig).bind fun stackCopy _ => ?_
  refine (verifyOutput_ends flags checker scriptPubKey stackCopy).keep.bind fun _ output => ?_
  split
  next p2sh =>
    exact verifyRedeem_ends flags checker scriptSig stackCopy
      (verifyOutput_p2sh flags checker scriptPubKey p2sh.2 stackCopy output.1)
  next => exact Ends.pure () trivial

omit [ScriptCrypto] in
theorem start_sound (stack : List Valtype) (script : CScript)
    (elements : ∀ vch ∈ stack, vch.length ≤ MAX_SCRIPT_ELEMENT_SIZE)
    (size : stack.length ≤ 1000) : (EvalState.start stack script).Sound where
  elements := by
    intro vch mem
    rw [EvalState.start, List.append_nil] at mem
    exact elements vch mem
  size := size
  count := Nat.zero_le _

theorem verifyInput_sound (final : List Valtype)
    (ok : (verifyInput flags checker scriptSig).result = .ok final) :
    (∀ vch ∈ final, vch.length ≤ MAX_SCRIPT_ELEMENT_SIZE) ∧ final.length ≤ 1000 := by
  obtain ⟨read, st, reaches, rfl⟩ := (verifyInput_ends flags checker scriptSig).ok final ok
  have fresh := start_sound [] scriptSig (fun _ mem => absurd mem List.not_mem_nil)
    (Nat.zero_le _)
  have sound := (Reaches.sound flags checker [] scriptSig read st reaches fresh).1
  refine ⟨fun vch mem => sound.elements vch (List.mem_append_left _ mem), ?_⟩
  exact Nat.le_trans (Nat.le_add_right _ _) sound.size

theorem Evaluates.start_sound (evaluates : Evaluates flags checker scriptSig scriptPubKey stack script) :
    (EvalState.start stack script).Sound := by
  cases evaluates with
  | input allowed =>
      exact CryptoYen.start_sound [] _ (fun _ mem => absurd mem List.not_mem_nil) (Nat.zero_le _)
  | output _ ok =>
      obtain ⟨elements, size⟩ := verifyInput_sound flags checker scriptSig stack ok
      exact CryptoYen.start_sound stack _ elements size
  | redeem _ _ reached =>
      obtain ⟨stackCopy, _, _, input, _, _, redeem⟩ := reached
      obtain ⟨_, rfl⟩ := redeemScript_ok scriptSig script stackCopy stack redeem
      obtain ⟨elements, size⟩ := verifyInput_sound flags checker scriptSig _ input
      refine CryptoYen.start_sound stack script (fun vch mem => elements vch ?_) ?_
      · exact List.mem_cons_of_mem _ mem
      · exact Nat.le_of_succ_le size

/-- VerifyScript makes no access out of range and its assertion holds, and every state that one of
its evaluations goes on from is within the limits. -/
theorem verifyScript_safe :
    ((verifyScript flags checker scriptSig scriptPubKey).result ≠ .error .outOfRange ∧
      (verifyScript flags checker scriptSig scriptPubKey).result ≠ .error .aborted ∧
      (verifyScript flags checker scriptSig scriptPubKey).result ≠ .error .endless) ∧
    ∀ stack script read st, Evaluates flags checker scriptSig scriptPubKey stack script →
      Reaches flags checker stack script read st →
      st.stack.length + st.altstack.length ≤ 1000 ∧
      (∀ vch ∈ st.stack ++ st.altstack, vch.length ≤ 520) ∧
      read.countP (OP_16 < ·) ≤ 201 := by
  have harmless := (verifyScript_ends flags checker scriptSig scriptPubKey).error
  refine ⟨⟨harmless _, harmless _, harmless _⟩, ?_⟩
  intro stack script read st evaluates reaches
  have fresh := Evaluates.start_sound flags checker stack script scriptSig scriptPubKey evaluates
  obtain ⟨sound, counted⟩ := Reaches.sound flags checker stack script read st reaches fresh
  exact ⟨sound.size, sound.elements, Nat.le_trans counted sound.count⟩

end steps

end CryptoYen
