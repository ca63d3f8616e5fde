import CryptoYen.Script.Instructions

set_option autoImplicit false

namespace CryptoYen

open Metered (Ends)

def Halt.Harmless : Halt → Prop
  | .failed _ | .thrown => True
  | .outOfRange | .aborted | .endless => False

def KeepsSmall (before after : List Valtype) : Prop :=
  ∀ vch ∈ after, vch ∈ before ∨ vch.length ≤ MAX_SCRIPT_ELEMENT_SIZE

theorem keepsSmall_of_mem {before after : List Valtype} (all : ∀ vch ∈ after, vch ∈ before) :
    KeepsSmall before after :=
  fun vch mem => Or.inl (all vch mem)

theorem keepsSmall_cons {before after : List Valtype} {vch : Valtype}
    (small : vch.length ≤ MAX_SCRIPT_ELEMENT_SIZE) (keeps : KeepsSmall before after) :
    KeepsSmall before (vch :: after) := by
  intro other mem
  rcases List.mem_cons.mp mem with rfl | mem
  · exact Or.inr small
  · exact keeps other mem

theorem KeepsSmall.trans {first second third : List Valtype} (before : KeepsSmall first second)
    (after : KeepsSmall second third) : KeepsSmall first third := by
  intro vch mem
  rcases after vch mem with mem | small
  · exact before vch mem
  · exact Or.inr small

theorem keepsSmall_drop (n : Nat) (stack : List Valtype) : KeepsSmall stack (stack.drop n) :=
  keepsSmall_of_mem fun _ => List.mem_of_mem_drop

theorem serialize_small (value : Int) :
    (CScriptNum.serialize value).length ≤ MAX_SCRIPT_ELEMENT_SIZE :=
  Nat.le_trans (CScriptNum.serialize_length value) (by decide)

theorem vchOf_small (value : Bool) : (vchOf value).length ≤ MAX_SCRIPT_ELEMENT_SIZE := by
  cases value <;> decide

section accesses

variable (stack : List Valtype) {limit : Nat}

theorem demand_ends (holds : Prop) [Decidable holds] (serror : ScriptError) :
    Ends Halt.Harmless 0 (fun _ => holds) (demand holds serror) := by
  rw [demand]
  split
  next yes => exact Ends.pure _ yes
  next => exact Ends.stop _ trivial

theorem need_ends (n : Nat) (serror : ScriptError) :
    Ends Halt.Harmless 0 (fun _ => n ≤ stack.length) (need n stack serror) :=
  demand_ends _ serror

theorem accept_ends (error : Option ScriptError) :
    Ends Halt.Harmless 0 (fun _ => True) (accept error) := by
  cases error with
  | none => exact Ends.pure _ trivial
  | some serror => exact Ends.stop _ trivial

theorem stackTop_ends (i : Nat) (inside : i < stack.length) :
    Ends Halt.Harmless 0 (fun vch => stack[i]? = some vch) (stackTop (i + 1) stack) := by
  rw [stackTop, List.getElem?_eq_getElem inside]
  exact Ends.pure _ rfl

theorem popStack_ends (some_left : 0 < stack.length) :
    Ends Halt.Harmless 0 (fun rest => rest = stack.drop 1) (popStack stack) := by
  cases stack with
  | nil => exact absurd some_left (Nat.lt_irrefl 0)
  | cons vch rest => exact Ends.pure rest rfl

theorem popStack_twice {B : Type} {post : B → Prop} {f : List Valtype → Eval B}
    (enough : 2 ≤ stack.length) (after : Ends Halt.Harmless limit post (f (stack.drop 2))) :
    Ends Halt.Harmless limit post (do
      let stack ← popStack stack
      let stack ← popStack stack
      f stack) := by
  refine (popStack_ends stack (by omega)).bind_free fun one popped => ?_
  refine (popStack_ends one ?_).bind_free fun rest emptied => ?_
  · rw [popped, List.length_drop]
    omega
  · rw [emptied, popped, List.drop_drop]
    exact after

theorem popStackTimes_ends (n : Nat) (enough : n ≤ stack.length) :
    Ends Halt.Harmless 0 (fun rest => rest = stack.drop n) (popStackTimes n stack) := by
  induction n generalizing stack with
  | zero => exact Ends.pure stack rfl
  | succ n ih =>
      rw [popStackTimes]
      refine (popStack_ends stack (by omega)).bind_free fun rest popped => ?_
      refine (ih rest ?_).mono (Nat.le_refl 0) fun left same => ?_
      · rw [popped, List.length_drop]
        omega
      · rw [same, popped, List.drop_drop, Nat.add_comm]

theorem eraseStack_ends (i j : Nat) (ordered : j ≤ i) (enough : i ≤ stack.length) :
    Ends Halt.Harmless 0 (fun rest => rest = stack.take j ++ stack.drop i)
      (eraseStack i j stack) := by
  rw [eraseStack, if_pos ⟨ordered, enough⟩]
  exact Ends.pure _ rfl

theorem pushResult_ends (fValue verify : Bool) (serror : ScriptError) :
    Ends Halt.Harmless 0 (KeepsSmall stack) (pushResult fValue verify serror stack) := by
  rw [pushResult]
  cases verify with
  | false => exact Ends.pure _ (keepsSmall_cons (vchOf_small fValue) (keepsSmall_of_mem fun _ mem => mem))
  | true =>
      refine (demand_ends _ serror).bind_free fun _ _ => ?_
      exact Ends.pure stack (keepsSmall_of_mem fun _ mem => mem)

end accesses

section numbers

theorem CScriptNum.setVch_natAbs (vch : Valtype) (short : vch.length ≤ 4) :
    (setVch vch).natAbs < 2 ^ 32 := by
  have bound := littleEndianValue_lt vch
  have wide : 256 ^ vch.length ≤ 256 ^ 4 := Nat.pow_le_pow_right (by decide) short
  have low := Nat.mod_le (littleEndianValue vch) (0x80 * 256 ^ (vch.length - 1))
  rw [setVch]
  split
  · decide
  · split
    · rw [Int.natAbs_neg, Int.natAbs_natCast]
      omega
    · rw [Int.natAbs_natCast]
      omega

variable (flags : BitVec 32)

theorem scriptNum_ends (vch : Valtype) (nMaxNumSize : Nat) :
    Ends Halt.Harmless 0
      (fun bn => CScriptNum.ofVch vch (fRequireMinimal flags) nMaxNumSize = some bn)
      (scriptNum flags vch nMaxNumSize) := by
  rw [scriptNum]
  cases CScriptNum.ofVch vch (fRequireMinimal flags) nMaxNumSize with
  | none => exact Ends.stop _ trivial
  | some bn => exact Ends.pure bn rfl

theorem CScriptNum.ofVch_natAbs (vch : Valtype) (minimal : Bool) (bn : Int)
    (parsed : ofVch vch minimal nDefaultMaxNumSize = some bn) : bn.natAbs < 2 ^ 32 := by
  rw [ofVch] at parsed
  split at parsed
  · cases parsed
  next short =>
    split at parsed
    · cases parsed
    · cases parsed
      exact setVch_natAbs vch (Nat.le_of_not_lt short)

theorem asserted_ends (holds : Prop) [Decidable holds] (yes : holds) :
    Ends Halt.Harmless 0 (fun _ => True) (asserted holds) := by
  rw [asserted, if_pos yes]
  exact Ends.pure _ trivial

theorem UnaryOp.apply_ends (op : UnaryOp) (bn : Int) (small : bn.natAbs < 2 ^ 32) :
    Ends Halt.Harmless 0 (fun _ => True) (op.apply bn) := by
  have negated : Ends Halt.Harmless 0 (fun _ => True) (CScriptNum.negated bn) := by
    refine (asserted_ends _ ?_).bind_free fun _ _ => Ends.pure _ trivial
    rw [NUM_MIN]
    omega
  cases op with
  | add1 =>
      refine (asserted_ends _ ?_).bind_free fun _ _ => Ends.pure _ trivial
      rw [maxInt64]
      omega
  | sub1 =>
      refine (asserted_ends _ ?_).bind_free fun _ _ => Ends.pure _ trivial
      rw [NUM_MIN]
      omega
  | negate => exact negated
  | abs =>
      rw [UnaryOp.apply]
      split
      · exact negated
      · exact Ends.pure _ trivial
  | not => exact Ends.pure _ trivial
  | notEqual0 => exact Ends.pure _ trivial

end numbers

section families

variable [ScriptCrypto] (flags : BitVec 32) (checker : BaseSignatureChecker)
variable (stack : List Valtype)

omit [ScriptCrypto] in
theorem executeStackOp_ends (op : StackOp) :
    Ends Halt.Harmless 0 (KeepsSmall stack) (executeStackOp op stack) := by
  cases op with
  | drop2 =>
      refine (need_ends stack 2 _).bind_free fun _ enough => ?_
      match stack, enough with
      | _ :: _ :: rest, _ => exact Ends.pure rest (keepsSmall_drop 2 _)
  | dup2 =>
      refine (need_ends stack 2 _).bind_free fun _ enough => ?_
      match stack, enough with
      | b :: a :: rest, _ =>
          refine Ends.pure (b :: a :: b :: a :: rest) (keepsSmall_of_mem ?_)
          simp +contextual
  | dup3 =>
      refine (need_ends stack 3 _).bind_free fun _ enough => ?_
      match stack, enough with
      | c :: b :: a :: rest, _ =>
          refine Ends.pure (c :: b :: a :: c :: b :: a :: rest) (keepsSmall_of_mem ?_)
          simp +contextual
  | over2 =>
      refine (need_ends stack 4 _).bind_free fun _ enough => ?_
      match stack, enough with
      | d :: c :: b :: a :: rest, _ =>
          refine Ends.pure (b :: a :: d :: c :: b :: a :: rest) (keepsSmall_of_mem ?_)
          simp +contextual
  | rot2 =>
      refine (need_ends stack 6 _).bind_free fun _ enough => ?_
      match stack, enough with
      | f :: e :: d :: c :: b :: a :: rest, _ =>
          refine Ends.pure (b :: a :: f :: e :: d :: c :: rest) (keepsSmall_of_mem ?_)
          simp +contextual
  | swap2 =>
      refine (need_ends stack 4 _).bind_free fun _ enough => ?_
      match stack, enough with
      | d :: c :: b :: a :: rest, _ =>
          refine Ends.pure (b :: a :: d :: c :: rest) (keepsSmall_of_mem ?_)
          simp +contextual
  | ifDup =>
      refine (need_ends stack 1 _).bind_free fun _ enough => ?_
      match stack, enough with
      | a :: rest, _ =>
          refine Ends.pure (if castToBool a then a :: a :: rest else a :: rest) (keepsSmall_of_mem ?_)
          split <;> simp +contextual
  | depth =>
      exact Ends.pure _ (keepsSmall_cons (serialize_small _) (keepsSmall_drop 0 _))
  | drop =>
      refine (need_ends stack 1 _).bind_free fun _ enough => ?_
      match stack, enough with
      | _ :: rest, _ => exact Ends.pure rest (keepsSmall_drop 1 _)
  | dup =>
      refine (need_ends stack 1 _).bind_free fun _ enough => ?_
      match stack, enough with
      | a :: rest, _ =>
          refine Ends.pure (a :: a :: rest) (keepsSmall_of_mem ?_)
          simp +contextual
  | nip =>
      refine (need_ends stack 2 _).bind_free fun _ enough => ?_
      match stack, enough with
      | b :: a :: rest, _ =>
          refine Ends.pure (b :: rest) (keepsSmall_of_mem ?_)
          simp +contextual
  | copyOver =>
      refine (need_ends stack 2 _).bind_free fun _ enough => ?_
      match stack, enough with
      | b :: a :: rest, _ =>
          refine Ends.pure (a :: b :: a :: rest) (keepsSmall_of_mem ?_)
          simp +contextual
  | rot =>
      refine (need_ends stack 3 _).bind_free fun _ enough => ?_
      match stack, enough with
      | c :: b :: a :: rest, _ =>
          refine Ends.pure (a :: c :: b :: rest) (keepsSmall_of_mem ?_)
          simp +contextual
  | swap =>
      refine (need_ends stack 2 _).bind_free fun _ enough => ?_
      match stack, enough with
      | b :: a :: rest, _ =>
          refine Ends.pure (a :: b :: rest) (keepsSmall_of_mem ?_)
          simp +contextual
  | tuck =>
      refine (need_ends stack 2 _).bind_free fun _ enough => ?_
      match stack, enough with
      | b :: a :: rest, _ =>
          refine Ends.pure (b :: a :: b :: rest) (keepsSmall_of_mem ?_)
          simp +contextual
  | size =>
      refine (need_ends stack 1 _).bind_free fun _ enough => ?_
      match stack, enough with
      | a :: rest, _ =>
          exact Ends.pure (CScriptNum.serialize a.length :: a :: rest)
            (keepsSmall_cons (serialize_small _) (keepsSmall_drop 0 _))

omit [ScriptCrypto] in
theorem executePick_ends (roll : Bool) :
    Ends Halt.Harmless 0 (KeepsSmall stack) (executePick flags roll stack) := by
  refine (need_ends stack 2 _).bind_free fun _ enough => ?_
  refine (stackTop_ends stack 0 (by omega)).bind_free fun top _ => ?_
  refine (scriptNum_ends flags top _).bind_free fun bn _ => ?_
  refine (popStack_ends stack (by omega)).bind_free fun rest popped => ?_
  refine (demand_ends _ _).bind_free fun _ range => ?_
  have inside : (CScriptNum.getint bn).toNat < rest.length := by omega
  refine (stackTop_ends rest _ inside).bind_free fun vch found => ?_
  have below : ∀ other ∈ rest, other ∈ stack := by
    intro other mem
    rw [popped] at mem
    exact List.mem_of_mem_drop mem
  have moved : vch ∈ stack := below vch (List.mem_of_getElem? found)
  cases roll with
  | false =>
      refine Ends.pure (vch :: rest) (keepsSmall_of_mem ?_)
      exact List.forall_mem_cons.mpr ⟨moved, below⟩
  | true =>
      refine (eraseStack_ends rest _ _ (Nat.le_succ _) inside).bind_free fun left erased => ?_
      refine Ends.pure (vch :: left) (keepsSmall_of_mem ?_)
      refine List.forall_mem_cons.mpr ⟨moved, fun other mem => below other ?_⟩
      rw [erased, List.mem_append] at mem
      exact mem.elim List.mem_of_mem_take List.mem_of_mem_drop

omit [ScriptCrypto] in
theorem executeEqual_ends (verify : Bool) :
    Ends Halt.Harmless 0 (KeepsSmall stack) (executeEqual verify stack) := by
  refine (need_ends stack 2 _).bind_free fun _ enough => ?_
  refine (stackTop_ends stack 1 enough).bind_free fun vch1 _ => ?_
  refine (stackTop_ends stack 0 (by omega)).bind_free fun vch2 _ => ?_
  refine popStack_twice stack enough ?_
  exact (pushResult_ends _ _ verify _).mono (Nat.le_refl 0) fun _ keeps =>
    (keepsSmall_drop 2 stack).trans keeps

omit [ScriptCrypto] in
theorem executeUnary_ends (op : UnaryOp) :
    Ends Halt.Harmless 0 (KeepsSmall stack) (executeUnary flags op stack) := by
  refine (need_ends stack 1 _).bind_free fun _ enough => ?_
  refine (stackTop_ends stack 0 enough).bind_free fun vch _ => ?_
  refine (scriptNum_ends flags vch _).bind_free fun bn parsed => ?_
  have small := CScriptNum.ofVch_natAbs vch _ bn parsed
  refine (op.apply_ends bn small).bind_free fun value _ => ?_
  refine (popStack_ends stack enough).bind_free fun rest popped => ?_
  rw [popped]
  exact Ends.pure _ (keepsSmall_cons (serialize_small value) (keepsSmall_drop 1 stack))

omit [ScriptCrypto] in
theorem executeBinary_ends (op : BinaryOp) :
    Ends Halt.Harmless 0 (KeepsSmall stack) (executeBinary flags op stack) := by
  refine (need_ends stack 2 _).bind_free fun _ enough => ?_
  refine (stackTop_ends stack 1 enough).bind_free fun vch1 _ => ?_
  refine (scriptNum_ends flags vch1 _).bind_free fun bn1 _ => ?_
  refine (stackTop_ends stack 0 (by omega)).bind_free fun vch2 _ => ?_
  refine (scriptNum_ends flags vch2 _).bind_free fun bn2 _ => ?_
  refine popStack_twice stack enough ?_
  have under : KeepsSmall stack (stack.drop 2) := keepsSmall_drop 2 stack
  dsimp only
  split
  · refine (stackTop_ends (_ :: stack.drop 2) 0 (Nat.zero_lt_succ _)).bind_free fun vch _ => ?_
    refine (demand_ends _ _).bind_free fun _ _ => ?_
    exact Ends.pure (stack.drop 2) under
  · exact Ends.pure _ (keepsSmall_cons (serialize_small _) under)

omit [ScriptCrypto] in
theorem executeWithin_ends :
    Ends Halt.Harmless 0 (KeepsSmall stack) (executeWithin flags stack) := by
  refine (need_ends stack 3 _).bind_free fun _ enough => ?_
  refine (stackTop_ends stack 2 enough).bind_free fun vch1 _ => ?_
  refine (scriptNum_ends flags vch1 _).bind_free fun bn1 _ => ?_
  refine (stackTop_ends stack 1 (by omega)).bind_free fun vch2 _ => ?_
  refine (scriptNum_ends flags vch2 _).bind_free fun bn2 _ => ?_
  refine (stackTop_ends stack 0 (by omega)).bind_free fun vch3 _ => ?_
  refine (scriptNum_ends flags vch3 _).bind_free fun bn3 _ => ?_
  refine (popStackTimes_ends stack 3 enough).bind_free fun rest popped => ?_
  rw [popped]
  exact Ends.pure _ (keepsSmall_cons (vchOf_small _) (keepsSmall_drop 3 stack))

theorem HashOp.apply_small (op : HashOp) (vch : Valtype) :
    (op.apply vch).length ≤ MAX_SCRIPT_ELEMENT_SIZE := by
  cases op <;> (rw [HashOp.apply, Vector.length_toList]; decide)

theorem executeHash_ends (op : HashOp) :
    Ends Halt.Harmless 0 (KeepsSmall stack) (executeHash op stack) := by
  refine (need_ends stack 1 _).bind_free fun _ enough => ?_
  refine (stackTop_ends stack 0 enough).bind_free fun vch _ => ?_
  refine (popStack_ends stack enough).bind_free fun rest popped => ?_
  rw [popped]
  exact Ends.pure _ (keepsSmall_cons (op.apply_small vch) (keepsSmall_drop 1 stack))

theorem checkEncodings_ends (vchSig vchPubKey : Valtype) :
    Ends Halt.Harmless 0 (fun _ => True) (checkEncodings flags vchSig vchPubKey) :=
  (accept_ends _).bind_free fun _ _ => accept_ends _

theorem executeCheckSig_ends (verify : Bool) (pbegincodehash : CScript) :
    Ends Halt.Harmless 1 (KeepsSmall stack)
      (executeCheckSig flags checker verify pbegincodehash stack) := by
  refine (need_ends stack 2 _).bind_free fun _ enough => ?_
  refine (stackTop_ends stack 1 enough).bind_free fun vchSig _ => ?_
  refine (stackTop_ends stack 0 (by omega)).bind_free fun vchPubKey _ => ?_
  refine (checkEncodings_ends flags vchSig vchPubKey).bind_free fun _ _ => ?_
  refine Ends.tick_bind _ ?_ (Nat.le_refl 1)
  refine popStack_twice stack enough ?_
  exact (pushResult_ends _ _ verify _).mono (Nat.le_refl 0) fun _ keeps =>
    (keepsSmall_drop 2 stack).trans keeps

omit [ScriptCrypto] in
theorem dropSignatures_ends (isig nSigsCount : Nat) (scriptCode : CScript)
    (inside : isig + nSigsCount ≤ stack.length) :
    Ends Halt.Harmless 0 (fun _ => True)
      (dropSignatures stack (isig + 1) nSigsCount scriptCode) := by
  induction nSigsCount generalizing isig scriptCode with
  | zero => exact Ends.pure scriptCode trivial
  | succ nSigsCount ih =>
      rw [dropSignatures]
      refine (stackTop_ends stack isig (by omega)).bind_free fun vchSig _ => ?_
      exact ih (isig + 1) _ (by omega)

theorem matchSignatures_ends (scriptCode : CScript) (fuel isig ikey nSigsCount nKeysCount : Nat)
    (enough : nKeysCount < fuel) (fewer : nSigsCount ≤ nKeysCount)
    (sigs : isig + nSigsCount ≤ stack.length) (keys : ikey + nKeysCount ≤ stack.length) :
    Ends Halt.Harmless nKeysCount (fun _ => True)
      (matchSignatures flags checker stack scriptCode fuel (isig + 1) (ikey + 1) nSigsCount
        nKeysCount) := by
  induction fuel generalizing isig ikey nSigsCount nKeysCount with
  | zero => exact absurd enough (Nat.not_lt_zero _)
  | succ fuel ih =>
      rw [matchSignatures]
      split
      · exact Ends.pure true trivial
      · refine (stackTop_ends stack isig (by omega)).bind_free fun vchSig _ => ?_
        refine (stackTop_ends stack ikey (by omega)).bind_free fun vchPubKey _ => ?_
        refine (checkEncodings_ends flags vchSig vchPubKey).bind_free fun _ _ => ?_
        refine Ends.tick_bind _ (?_ : Ends _ (nKeysCount - 1) _ _) (by omega)
        generalize checker.checkSig vchSig vchPubKey scriptCode = fOk
        cases fOk with
        | false =>
            simp only [Bool.false_eq_true, ↓reduceIte]
            split
            · exact Ends.pure false trivial
            · exact ih isig (ikey + 1) nSigsCount (nKeysCount - 1) (by omega) (by omega) sigs
                (by omega)
        | true =>
            simp only [↓reduceIte]
            split
            · exact Ends.pure false trivial
            · exact ih (isig + 1) (ikey + 1) (nSigsCount - 1) (nKeysCount - 1) (by omega)
                (by omega) (by omega) (by omega)

theorem executeCheckMultiSig_ends (verify : Bool) (pbegincodehash : CScript) (nOpCount limit : Nat)
    (keys : ∀ vch bn, stack[0]? = some vch →
      CScriptNum.ofVch vch (fRequireMinimal flags) CScriptNum.nDefaultMaxNumSize = some bn →
      CScriptNum.getint bn ≤ 20 → CScriptNum.getint bn ≤ limit) :
    Ends Halt.Harmless limit
      (fun next => KeepsSmall stack next.1 ∧ nOpCount ≤ next.2 ∧ next.2 ≤ 201)
      (executeCheckMultiSig flags checker verify pbegincodehash stack nOpCount) := by
  refine (need_ends stack 1 _).bind_free fun _ enough => ?_
  refine (stackTop_ends stack 0 enough).bind_free fun vch top => ?_
  refine (scriptNum_ends flags vch _).bind_free fun bn parsed => ?_
  refine (demand_ends _ _).bind_free fun _ keyRange => ?_
  have fewKeys : (CScriptNum.getint bn).toNat ≤ limit := by
    have few := keys vch bn top parsed keyRange.2
    omega
  generalize (CScriptNum.getint bn).toNat = nKeysCount at fewKeys ⊢
  refine (demand_ends _ _).bind_free fun _ counted => ?_
  refine (need_ends stack (2 + nKeysCount) _).bind_free fun _ enough => ?_
  rw [show 2 + nKeysCount = 1 + nKeysCount + 1 by omega]
  refine (stackTop_ends stack (1 + nKeysCount) (by omega)).bind_free fun vch _ => ?_
  refine (scriptNum_ends flags vch _).bind_free fun bn _ => ?_
  refine (demand_ends _ _).bind_free fun _ sigRange => ?_
  have fewSigs : (CScriptNum.getint bn).toNat ≤ nKeysCount := by omega
  generalize (CScriptNum.getint bn).toNat = nSigsCount at fewSigs ⊢
  refine (need_ends stack (1 + nKeysCount + 1 + 1 + nSigsCount) _).bind_free fun _ enough => ?_
  refine (dropSignatures_ends stack (1 + nKeysCount + 1) nSigsCount pbegincodehash
    (by omega)).bind_free fun scriptCode _ => ?_
  have matched := matchSignatures_ends flags checker stack scriptCode (nKeysCount + 1)
    (1 + nKeysCount + 1) 1 nSigsCount nKeysCount (Nat.lt_succ_self _) fewSigs (by omega) (by omega)
  refine (matched.mono fewKeys fun _ _ => trivial).bind_last fun fSuccess _ => ?_
  refine (popStackTimes_ends stack _ (by omega)).bind_free fun rest popped => ?_
  refine (need_ends rest 1 _).bind_free fun _ enough => ?_
  refine (stackTop_ends rest 0 enough).bind_free fun dummy _ => ?_
  refine (demand_ends _ _).bind_free fun _ _ => ?_
  refine (popStack_ends rest enough).bind_free fun left emptied => ?_
  refine (pushResult_ends left fSuccess verify _).bind_free fun next keeps => ?_
  refine Ends.pure (next, nOpCount + nKeysCount) ⟨?_, Nat.le_add_right _ _, counted⟩
  rw [emptied, popped, List.drop_drop] at keeps
  exact (keepsSmall_drop _ stack).trans keeps

end families

structure Moves (st next : EvalState) : Prop where
  pc : next.pc = st.pc
  keeps : KeepsSmall (st.stack ++ st.altstack) (next.stack ++ next.altstack)
  counted : st.nOpCount ≤ next.nOpCount
  limited : st.nOpCount ≤ 201 → next.nOpCount ≤ 201

theorem Moves.refl (st : EvalState) : Moves st st :=
  ⟨rfl, keepsSmall_of_mem fun _ mem => mem, Nat.le_refl _, fun few => few⟩

theorem Moves.on_stack (st : EvalState) (stack : List Valtype) (keeps : KeepsSmall st.stack stack) :
    Moves st { st with stack } := by
  refine ⟨rfl, ?_, Nat.le_refl _, fun few => few⟩
  intro vch mem
  rcases List.mem_append.mp mem with mem | mem
  · exact (keeps vch mem).imp (List.mem_append_left _) id
  · exact Or.inl (List.mem_append_right _ mem)

def Instr.Covers (flags : BitVec 32) (stack : List Valtype) (limit : Nat) : Instr → Prop
  | .checkSig _ => 1 ≤ limit
  | .checkMultiSig _ =>
      ∀ vch bn, stack[0]? = some vch →
        CScriptNum.ofVch vch (fRequireMinimal flags) CScriptNum.nDefaultMaxNumSize = some bn →
        CScriptNum.getint bn ≤ 20 → CScriptNum.getint bn ≤ limit
  | _ => True

section instructions

variable [ScriptCrypto] (flags : BitVec 32) (checker : BaseSignatureChecker)

omit [ScriptCrypto] in
theorem executeCheckLockTimeVerify_ends (stack : List Valtype) :
    Ends Halt.Harmless 0 (fun _ => True) (executeCheckLockTimeVerify flags checker stack) := by
  rw [executeCheckLockTimeVerify]
  split
  · exact (demand_ends _ _).mono (Nat.le_refl 0) fun _ _ => trivial
  · refine (need_ends stack 1 _).bind_free fun _ enough => ?_
    refine (stackTop_ends stack 0 enough).bind_free fun vch _ => ?_
    refine (scriptNum_ends flags vch _).bind_free fun nLockTime _ => ?_
    refine (demand_ends _ _).bind_free fun _ _ => ?_
    exact (demand_ends _ _).mono (Nat.le_refl 0) fun _ _ => trivial

theorem execute_ends (instr : Instr) (fExec : Bool) (st : EvalState) (limit : Nat)
    (covers : instr.Covers flags st.stack limit) :
    Ends Halt.Harmless limit (Moves st) (execute flags checker instr fExec st) := by
  -- An instruction that only works on the stack.
  have on_stack {run : Eval (List Valtype)} {less : Nat} (room : less ≤ limit)
      (ends : Ends Halt.Harmless less (KeepsSmall st.stack) run) :
      Ends Halt.Harmless limit (Moves st) (do
        let stack ← run
        return { st with stack }) :=
    (ends.mono room fun _ keeps => keeps).bind_last fun stack keeps =>
      Ends.pure _ (Moves.on_stack st stack keeps)
  have none_left : 0 ≤ limit := Nat.zero_le _
  have stays : Ends Halt.Harmless limit (Moves st) (pure st) := Ends.pure st (Moves.refl st)
  cases instr with
  | number value =>
      exact Ends.pure _ (Moves.on_stack st _
        (keepsSmall_cons (serialize_small value) (keepsSmall_drop 0 _)))
  | nop => exact stays
  | checkLockTimeVerify =>
      exact (executeCheckLockTimeVerify_ends flags checker st.stack).bind_free fun _ _ => stays
  | upgradableNop => exact (demand_ends _ _).bind_free fun _ _ => stays
  | ifElse negate =>
      rw [execute]
      split
      · refine (need_ends st.stack 1 _).bind_free fun _ enough => ?_
        refine (stackTop_ends st.stack 0 enough).bind_free fun vch _ => ?_
        refine (popStack_ends st.stack enough).bind_free fun stack popped => ?_
        have moves := Moves.on_stack st stack (popped ▸ keepsSmall_drop 1 st.stack)
        exact Ends.pure _ ⟨moves.pc, moves.keeps, moves.counted, moves.limited⟩
      · have moves := Moves.refl st
        exact Ends.pure _ ⟨moves.pc, moves.keeps, moves.counted, moves.limited⟩
  | «else» =>
      rw [execute]
      split
      · exact Ends.stop _ trivial
      · have moves := Moves.refl st
        exact Ends.pure _ ⟨moves.pc, moves.keeps, moves.counted, moves.limited⟩
  | endif =>
      rw [execute]
      split
      · exact Ends.stop _ trivial
      · have moves := Moves.refl st
        exact Ends.pure _ ⟨moves.pc, moves.keeps, moves.counted, moves.limited⟩
  | verify =>
      refine (need_ends st.stack 1 _).bind_free fun _ enough => ?_
      refine (stackTop_ends st.stack 0 enough).bind_free fun vch _ => ?_
      refine (demand_ends _ _).bind_free fun _ _ => ?_
      refine (popStack_ends st.stack enough).bind_free fun stack popped => ?_
      exact Ends.pure _ (Moves.on_stack st stack (popped ▸ keepsSmall_drop 1 st.stack))
  | «return» => exact Ends.stop _ trivial
  | toAltStack =>
      refine (need_ends st.stack 1 _).bind_free fun _ enough => ?_
      refine (stackTop_ends st.stack 0 enough).bind_free fun vch top => ?_
      refine (popStack_ends st.stack enough).bind_free fun stack popped => ?_
      refine Ends.pure _ ⟨rfl, keepsSmall_of_mem ?_, Nat.le_refl _, fun few => few⟩
      intro other mem
      rw [popped] at mem
      rcases List.mem_append.mp mem with mem | mem
      · exact List.mem_append_left _ (List.mem_of_mem_drop mem)
      · rcases List.mem_cons.mp mem with rfl | mem
        · exact List.mem_append_left _ (List.mem_of_getElem? top)
        · exact List.mem_append_right _ mem
  | fromAltStack =>
      refine (need_ends st.altstack 1 _).bind_free fun _ enough => ?_
      refine (stackTop_ends st.altstack 0 enough).bind_free fun vch top => ?_
      refine (popStack_ends st.altstack enough).bind_free fun altstack popped => ?_
      refine Ends.pure _ ⟨rfl, keepsSmall_of_mem ?_, Nat.le_refl _, fun few => few⟩
      intro other mem
      rw [popped] at mem
      rcases List.mem_append.mp mem with mem | mem
      · rcases List.mem_cons.mp mem with rfl | mem
        · exact List.mem_append_right _ (List.mem_of_getElem? top)
        · exact List.mem_append_left _ mem
      · exact List.mem_append_right _ (List.mem_of_mem_drop mem)
  | onStack op => exact on_stack none_left (executeStackOp_ends st.stack op)
  | pick roll => exact on_stack none_left (executePick_ends flags st.stack roll)
  | equal verify => exact on_stack none_left (executeEqual_ends st.stack verify)
  | unary op => exact on_stack none_left (executeUnary_ends flags st.stack op)
  | binary op => exact on_stack none_left (executeBinary_ends flags st.stack op)
  | within => exact on_stack none_left (executeWithin_ends flags st.stack)
  | hash op => exact on_stack none_left (executeHash_ends st.stack op)
  | codeSeparator =>
      have moves := Moves.refl st
      exact Ends.pure _ ⟨moves.pc, moves.keeps, moves.counted, moves.limited⟩
  | checkSig verify =>
      exact on_stack covers (executeCheckSig_ends flags checker st.stack verify st.pbegincodehash)
  | checkMultiSig verify =>
      have ends := executeCheckMultiSig_ends flags checker st.stack verify st.pbegincodehash
        st.nOpCount limit covers
      refine ends.bind_last fun next post => ?_
      have moves := Moves.on_stack st next.1 post.1
      exact Ends.pure _ ⟨rfl, moves.keeps, post.2.1, fun _ => post.2.2⟩
  | bad => exact Ends.stop _ trivial

end instructions

end CryptoYen
