import CryptoYen.Primitives.Format
import CryptoYen.Script.Encoding

set_option autoImplicit false

namespace CryptoYen

def OP_CODESEPARATOR : UInt8 := 0xab

namespace Format

def txOut : Codec String CTxOut :=
  ((Codec.int streamFailures 8).pair bytes).via (fun out => (out.nValue, out.scriptPubKey))
    fun (nValue, scriptPubKey) => ⟨nValue, scriptPubKey⟩

def transaction : Codec String CTransaction :=
  (int32.pair ((vector txIn).pair ((vector txOut).pair uint32))).via
    (fun tx => (tx.nVersion, tx.vin, tx.vout, tx.nLockTime))
    fun (nVersion, vin, vout, nLockTime) => ⟨nVersion, vin, vout, nLockTime⟩

theorem bytes_write (script : List UInt8) :
    bytes.write script = Codec.writeCompactSize script.length ++ script := by
  have each (b : UInt8) : (Codec.byte streamFailures).write b = [b] := by
    show [UInt8.ofNat (b.toNat % 256)] = [b]
    rw [Nat.mod_eq_of_lt b.toNat_lt, UInt8.ofNat_toNat]
  show _ ++ script.flatMap (Codec.byte streamFailures).write = _
  rw [funext each, List.flatMap_singleton']

end Format

/-- What the hash of a signature is: 1 for an index out of range, else that of these bytes. -/
inductive SigHash
  | one
  | of (hashed : List UInt8)
  deriving DecidableEq, Repr

section hashTypes

variable (nHashType : BitVec 32)

def fAnyoneCanPay : Bool := nHashType &&& SIGHASH_ANYONECANPAY.toNat != 0

def fHashSingle : Bool := nHashType &&& 0x1f == SIGHASH_SINGLE.toNat

def fHashNone : Bool := nHashType &&& 0x1f == SIGHASH_NONE.toNat

end hashTypes

-- One after the other; none is an access out of range.
def serializeEach (f : Nat → Option (List UInt8)) : List Nat → Option (List UInt8)
  | [] => some []
  | i :: rest => do
      let first ← f i
      let others ← serializeEach f rest
      return first ++ others

section serializer

variable (txTo : CTransaction) (scriptCode : CScript) (nIn : Nat) (nHashType : BitVec 32)

def countCodeSeparators : Nat → Nat → Option Nat
  | 0, _ => none
  | fuel + 1, it =>
      match scriptCode.getOp2 it with
      | none => none
      | some ⟨false, _, _, _⟩ => some 0
      | some ⟨true, next, opcode, _⟩ => do
          let nCodeSeparators ← countCodeSeparators fuel next
          return if opcode = OP_CODESEPARATOR then nCodeSeparators + 1 else nCodeSeparators

def serializePieces : Nat → Nat → Nat → Option (List UInt8)
  | 0, _, _ => none
  | fuel + 1, itBegin, it =>
      match scriptCode.getOp2 it with
      | none => none
      | some ⟨false, stop, _, _⟩ =>
          if itBegin = scriptCode.length then some [] else scriptCode.slice itBegin (stop - itBegin)
      | some ⟨true, next, opcode, _⟩ =>
          if opcode = OP_CODESEPARATOR then do
            let piece ← scriptCode.slice itBegin (next - itBegin - 1)
            let rest ← serializePieces fuel next next
            return piece ++ rest
          else serializePieces fuel itBegin next

def serializeScriptCode : Option (List UInt8) := do
  let nCodeSeparators ← countCodeSeparators scriptCode (scriptCode.length + 1) 0
  let pieces ← serializePieces scriptCode (scriptCode.length + 1) 0 0
  return Codec.writeCompactSize (scriptCode.length - nCodeSeparators) ++ pieces

def serializeInput (nInput : Nat) : Option (List UInt8) := do
  -- In case of SIGHASH_ANYONECANPAY, only the input being signed is serialized
  let nInput := if fAnyoneCanPay nHashType then nIn else nInput
  let txin ← txTo.vin[nInput]?
  let script ← if nInput ≠ nIn then some (Format.bytes.write []) else serializeScriptCode scriptCode
  let nSequence :=
    if nInput ≠ nIn ∧ (fHashSingle nHashType || fHashNone nHashType) = true then
      Format.int32.write 0
    else Format.uint32.write txin.nSequence
  return Format.outPoint.write txin.prevout ++ (script ++ nSequence)

def serializeOutput (nOutput : Nat) : Option (List UInt8) :=
  if fHashSingle nHashType = true ∧ nOutput ≠ nIn then some (Format.txOut.write CTxOut.null)
  else do
    let out ← txTo.vout[nOutput]?
    return Format.txOut.write out

def serializeSigned : Option (List UInt8) := do
  let nInputs := if fAnyoneCanPay nHashType then 1 else txTo.vin.length
  let nOutputs :=
    if fHashNone nHashType then 0
    else if fHashSingle nHashType then nIn + 1
    else txTo.vout.length
  let inputs ← serializeEach (serializeInput txTo scriptCode nIn nHashType) (List.range nInputs)
  let outputs ← serializeEach (serializeOutput txTo nIn nHashType) (List.range nOutputs)
  return Format.int32.write txTo.nVersion ++
    ((Codec.writeCompactSize nInputs ++ inputs) ++
      ((Codec.writeCompactSize nOutputs ++ outputs) ++ Format.uint32.write txTo.nLockTime))

def signatureHash : Option SigHash :=
  if txTo.vin.length ≤ nIn then some .one
  else if fHashSingle nHashType = true ∧ txTo.vout.length ≤ nIn then some .one
  else do
    let txTmp ← serializeSigned txTo scriptCode nIn nHashType
    return .of (txTmp ++ Format.uint32.write nHashType.toNat)

end serializer

section reference

def releaseSequences (nIn : Nat) (vin : List CTxIn) : List CTxIn :=
  vin.mapIdx fun i txin => if i ≠ nIn then { txin with nSequence := 0 } else txin

def blankInputs (txTo : CTransaction) (scriptCode : CScript) (nIn : Nat) (nHashType : BitVec 32) :
    List CTxIn :=
  let vin := (txTo.vin.map fun txin => { txin with scriptSig := [] }).modify nIn
    fun txin => { txin with scriptSig := scriptCode }
  if nHashType &&& 0x1f = SIGHASH_NONE.toNat ∨ nHashType &&& 0x1f = SIGHASH_SINGLE.toNat then
    releaseSequences nIn vin
  else vin

def blankOutputs (txTo : CTransaction) (nIn : Nat) (nHashType : BitVec 32) : List CTxOut :=
  if nHashType &&& 0x1f = SIGHASH_NONE.toNat then []
  else if nHashType &&& 0x1f = SIGHASH_SINGLE.toNat then
    (txTo.vout.take (nIn + 1)).mapIdx fun i out => if i < nIn then CTxOut.null else out
  else txTo.vout

def keepSigned (nIn : Nat) (nHashType : BitVec 32) (vin : List CTxIn) : Option (List CTxIn) :=
  if nHashType &&& SIGHASH_ANYONECANPAY.toNat ≠ 0 then (vin[nIn]?).map fun txin => [txin]
  else some vin

def signatureHashOld (scriptCode : CScript) (txTo : CTransaction) (nIn : Nat)
    (nHashType : BitVec 32) : Option SigHash :=
  if txTo.vin.length ≤ nIn then some .one
  else if nHashType &&& 0x1f = SIGHASH_SINGLE.toNat ∧ txTo.vout.length ≤ nIn then some .one
  else do
    let scriptCode := (scriptCode.findAndDelete [OP_CODESEPARATOR]).2
    let vout := blankOutputs txTo nIn nHashType
    let vin ← keepSigned nIn nHashType (blankInputs txTo scriptCode nIn nHashType)
    return .of (Format.transaction.write { txTo with vin, vout } ++
      Format.uint32.write nHashType.toNat)

end reference

inductive Parses : CScript → Prop
  | nil : Parses []
  | op (opcode : UInt8) (data : List UInt8) (pc rest : CScript)
      (found : CScript.getOp pc = some (opcode, data, rest)) (onward : Parses rest) : Parses pc

inductive Strips : CScript → CScript → Nat → Prop
  | nil : Strips [] [] 0
  | separator (rest kept : CScript) (n : Nat) (onward : Strips rest kept n) :
      Strips (OP_CODESEPARATOR :: rest) kept (n + 1)
  | op (opcode : UInt8) (data : List UInt8) (pc rest kept : CScript) (n : Nat)
      (other : opcode ≠ OP_CODESEPARATOR)
      (found : CScript.getOp pc = some (opcode, data, rest)) (onward : Strips rest kept n) :
      Strips pc (pc.take (pc.length - rest.length) ++ kept) n

section stripping

theorem getOp_separator (rest : CScript) :
    CScript.getOp (OP_CODESEPARATOR :: rest) = some (OP_CODESEPARATOR, [], rest) :=
  CScript.getOp_plain OP_CODESEPARATOR (by decide) rest

theorem Parses.strips (script : CScript) (parses : Parses script) :
    ∃ kept n, Strips script kept n := by
  induction parses with
  | nil => exact ⟨[], 0, .nil⟩
  | op opcode data pc rest found _ ih =>
      obtain ⟨kept, n, onward⟩ := ih
      by_cases separator : opcode = OP_CODESEPARATOR
      · subst separator
        obtain ⟨tail, rfl⟩ := CScript.getOp_head pc rest _ data found
        rw [getOp_separator] at found
        cases found
        exact ⟨kept, n + 1, .separator rest kept n onward⟩
      · exact ⟨_, n, .op opcode data pc rest kept n separator found onward⟩

theorem Strips.length (script kept : CScript) (n : Nat) (strips : Strips script kept n) :
    kept.length + n = script.length := by
  induction strips with
  | nil => rfl
  | separator rest kept n _ ih =>
      rw [List.length_cons]
      omega
  | op opcode data pc rest kept n _ found _ ih =>
      have shorter := CScript.getOp_shorter pc rest opcode data found
      rw [List.length_append, List.length_take]
      omega

variable (script : CScript)

theorem getOp2_found (it : Nat) (inside : it ≤ script.length) (opcode : UInt8) (data : List UInt8)
    (rest : CScript) (found : CScript.getOp (script.drop it) = some (opcode, data, rest)) :
    ∃ next, script.getOp2 it = some ⟨true, next, opcode, data⟩ ∧ it < next ∧
      next ≤ script.length ∧ script.drop next = rest := by
  obtain ⟨⟨fRet, next, opcodeRet, vchRet⟩, called, reads⟩ := script.getOp2_reads it inside
  have same := reads.found
  rw [found] at same
  cases fRet with
  | false => cases same
  | true =>
      cases same
      exact ⟨next, called, reads.moved rfl, reads.inside, rfl⟩

theorem getOp2_end (it : Nat) (inside : it ≤ script.length) (ended : script.drop it = []) :
    ∃ opcode data, script.getOp2 it = some ⟨false, script.length, opcode, data⟩ := by
  have there : script.length ≤ it := List.drop_eq_nil_iff.mp ended
  obtain ⟨⟨fRet, next, opcodeRet, vchRet⟩, called, reads⟩ := script.getOp2_reads it inside
  have same := reads.found
  rw [ended] at same
  cases fRet with
  | true => cases same
  | false =>
      have forward := reads.forward
      have stop := reads.inside
      rw [show script.length = next from by dsimp only at forward stop; omega]
      exact ⟨opcodeRet, vchRet, called⟩

theorem countCodeSeparators_strips (fuel it n : Nat) (rest kept : CScript)
    (strips : Strips rest kept n) (here : script.drop it = rest) (inside : it ≤ script.length)
    (enough : script.length - it < fuel) :
    countCodeSeparators script fuel it = some n := by
  induction strips generalizing fuel it with
  | nil =>
      obtain ⟨fuel, rfl⟩ : ∃ f, fuel = f + 1 := ⟨fuel - 1, by omega⟩
      obtain ⟨opcode, data, called⟩ := getOp2_end script it inside here
      rw [countCodeSeparators, called]
  | separator rest kept n _ ih =>
      obtain ⟨fuel, rfl⟩ : ∃ f, fuel = f + 1 := ⟨fuel - 1, by omega⟩
      obtain ⟨next, called, after, bounded, there⟩ := getOp2_found script it inside _ _ _
        (here ▸ getOp_separator rest)
      rw [countCodeSeparators, called]
      dsimp only
      rw [ih fuel next there bounded (by omega)]
      rfl
  | op opcode data pc rest kept n other found _ ih =>
      obtain ⟨fuel, rfl⟩ : ∃ f, fuel = f + 1 := ⟨fuel - 1, by omega⟩
      obtain ⟨next, called, after, bounded, there⟩ := getOp2_found script it inside _ _ _
        (here ▸ found)
      rw [countCodeSeparators, called]
      dsimp only
      rw [ih fuel next there bounded (by omega)]
      exact congrArg some (if_neg other)

/-- From the last separator on, what is written is the bytes read since and then the rest without
separators. -/
theorem serializePieces_strips (fuel itBegin it n : Nat) (rest kept : CScript)
    (strips : Strips rest kept n) (here : script.drop it = rest) (inside : it ≤ script.length)
    (behind : itBegin ≤ it) (enough : script.length - it < fuel) :
    serializePieces script fuel itBegin it =
      some ((script.drop itBegin).take (it - itBegin) ++ kept) := by
  induction strips generalizing fuel itBegin it with
  | nil =>
      obtain ⟨fuel, rfl⟩ : ∃ f, fuel = f + 1 := ⟨fuel - 1, by omega⟩
      obtain ⟨opcode, data, called⟩ := getOp2_end script it inside here
      have there : it = script.length :=
        Nat.le_antisymm inside (List.drop_eq_nil_iff.mp here)
      rw [serializePieces, called, there, List.append_nil]
      dsimp only
      split
      next all => rw [all, Nat.sub_self, List.take_zero]
      next => exact script.slice_inside itBegin _ (by omega)
  | separator rest kept n _ ih =>
      obtain ⟨fuel, rfl⟩ : ∃ f, fuel = f + 1 := ⟨fuel - 1, by omega⟩
      obtain ⟨next, called, after, bounded, there⟩ := getOp2_found script it inside _ _ _
        (here ▸ getOp_separator rest)
      have one : next = it + 1 := by
        have long := congrArg List.length here
        have short := congrArg List.length there
        rw [List.length_drop, List.length_cons] at long
        rw [List.length_drop] at short
        omega
      rw [serializePieces, called]
      dsimp only
      rw [if_pos rfl, script.slice_inside itBegin _ (by omega),
        ih fuel next next there bounded (Nat.le_refl _) (by omega), Nat.sub_self, List.take_zero,
        show next - itBegin - 1 = it - itBegin by omega]
      rfl
  | op opcode data pc rest kept n other found _ ih =>
      obtain ⟨fuel, rfl⟩ : ∃ f, fuel = f + 1 := ⟨fuel - 1, by omega⟩
      obtain ⟨next, called, after, bounded, there⟩ := getOp2_found script it inside _ _ _
        (here ▸ found)
      rw [serializePieces, called]
      dsimp only
      rw [if_neg other, ih fuel itBegin next there bounded (by omega) (by omega)]
      have onward : pc.length - rest.length = next - it := by
        rw [← here, ← there, List.length_drop, List.length_drop]
        omega
      rw [onward, ← List.append_assoc, ← here, show next - itBegin = (it - itBegin) + (next - it) by
        omega, List.take_add, List.drop_drop, show itBegin + (it - itBegin) = it by omega]

theorem eraseCopies_other (opcode : UInt8) (tail : CScript) (fuel : Nat)
    (other : opcode ≠ OP_CODESEPARATOR) :
    CScript.eraseCopies [OP_CODESEPARATOR] fuel (opcode :: tail) = (0, opcode :: tail) := by
  cases fuel with
  | zero => rfl
  | succ fuel =>
      have no : List.isPrefixOf [OP_CODESEPARATOR] (opcode :: tail) = false := by
        simpa [List.isPrefixOf] using fun same => other same.symm
      rw [CScript.eraseCopies, no]
      rfl

theorem findAndDeleteFrom_strips (fuel n : Nat) (rest kept : CScript) (strips : Strips rest kept n)
    (enough : rest.length < fuel) :
    (CScript.findAndDeleteFrom [OP_CODESEPARATOR] fuel rest).2 = kept := by
  induction strips generalizing fuel with
  | nil =>
      obtain ⟨fuel, rfl⟩ : ∃ f, fuel = f + 1 := ⟨fuel - 1, by omega⟩
      rfl
  | separator rest kept n _ ih =>
      rw [List.length_cons] at enough
      obtain ⟨fuel, rfl⟩ : ∃ f, fuel = f + 1 := ⟨fuel - 1, by omega⟩
      rw [← ih (fuel + 1) (by omega), CScript.findAndDeleteFrom, CScript.findAndDeleteFrom]
      have copies : CScript.eraseCopies [OP_CODESEPARATOR] (rest.length + 1)
          (OP_CODESEPARATOR :: rest) =
          ((CScript.eraseCopies [OP_CODESEPARATOR] rest.length rest).1 + 1,
            (CScript.eraseCopies [OP_CODESEPARATOR] rest.length rest).2) := rfl
      rw [List.length_cons, copies]
      generalize CScript.eraseCopies [OP_CODESEPARATOR] rest.length rest = copied
      obtain ⟨erased, pc⟩ := copied
      dsimp only
      cases CScript.getOp pc with
      | none => rfl
      | some op => rfl
  | op opcode data pc rest kept n other found _ ih =>
      obtain ⟨fuel, rfl⟩ : ∃ f, fuel = f + 1 := ⟨fuel - 1, by omega⟩
      have shorter := CScript.getOp_shorter pc rest opcode data found
      obtain ⟨tail, same⟩ := CScript.getOp_head pc rest opcode data found
      have nothing : CScript.eraseCopies [OP_CODESEPARATOR] pc.length pc = (0, pc) := by
        rw [same]
        exact eraseCopies_other opcode tail _ other
      rw [CScript.findAndDeleteFrom, nothing]
      dsimp only
      rw [found]
      dsimp only
      rw [ih fuel (by omega)]

theorem serializeScriptCode_parses (parses : Parses script) :
    serializeScriptCode script =
      some (Format.bytes.write (script.findAndDelete [OP_CODESEPARATOR]).2) := by
  obtain ⟨kept, n, strips⟩ := parses.strips
  have counted := countCodeSeparators_strips script (script.length + 1) 0 n script kept strips rfl
    (Nat.zero_le _) (by omega)
  have pieces := serializePieces_strips script (script.length + 1) 0 0 n script kept strips rfl
    (Nat.zero_le _) (Nat.le_refl _) (by omega)
  have length := strips.length
  have deleted : (script.findAndDelete [OP_CODESEPARATOR]).2 = kept :=
    findAndDeleteFrom_strips (script.length + 1) n script kept strips (Nat.lt_succ_self _)
  rw [serializeScriptCode, counted, pieces, deleted, Format.bytes_write,
    show kept.length = script.length - n by omega]
  rfl

end stripping

section equality

theorem serializeEach_map (f : Nat → Option (List UInt8)) (g : Nat → Nat) (indices : List Nat) :
    serializeEach f (indices.map g) = serializeEach (fun i => f (g i)) indices := by
  induction indices with
  | nil => rfl
  | cons i rest ih => rw [List.map_cons, serializeEach, serializeEach, ih]

theorem serializeEach_range {A : Type} (f : Nat → Option (List UInt8)) (write : A → List UInt8)
    (items : List A) (each : ∀ i item, items[i]? = some item → f i = some (write item)) :
    serializeEach f (List.range items.length) = some (items.flatMap write) := by
  induction items generalizing f with
  | nil => rfl
  | cons item items ih =>
      rw [List.length_cons, List.range_succ_eq_map, serializeEach, each 0 item rfl,
        serializeEach_map, ih (fun i => f (i + 1)) fun i other found => each (i + 1) other found]
      rfl

variable (txTo : CTransaction) (scriptCode kept : CScript) (nIn : Nat) (nHashType : BitVec 32)

def signedInput (nInput : Nat) (txin : CTxIn) : CTxIn :=
  { prevout := txin.prevout
    scriptSig := if nInput = nIn then kept else []
    nSequence :=
      if nInput ≠ nIn ∧ (fHashSingle nHashType || fHashNone nHashType) = true then 0
      else txin.nSequence }

def signedOutput (nOutput : Nat) (out : CTxOut) : CTxOut :=
  if fHashSingle nHashType = true ∧ nOutput ≠ nIn then CTxOut.null else out

theorem serializeInput_signed (nInput : Nat) (txin : CTxIn)
    (written : serializeScriptCode scriptCode = some (Format.bytes.write kept))
    (found : txTo.vin[if fAnyoneCanPay nHashType then nIn else nInput]? = some txin) :
    serializeInput txTo scriptCode nIn nHashType nInput =
      some (Format.txIn.write (signedInput kept nIn nHashType
        (if fAnyoneCanPay nHashType then nIn else nInput) txin)) := by
  rw [serializeInput]
  generalize (if fAnyoneCanPay nHashType then nIn else nInput) = index at found ⊢
  dsimp only
  rw [found, written, signedInput, Option.bind_eq_bind, Option.bind_some]
  by_cases same : index = nIn
  · have own : ¬ index ≠ nIn := not_not.mpr same
    rw [if_neg own, if_neg (fun both => own both.1), if_pos same, if_neg (fun both => own both.1)]
    rfl
  · have other : index ≠ nIn := same
    rw [if_pos other, if_neg same]
    by_cases released : (fHashSingle nHashType || fHashNone nHashType) = true
    · rw [if_pos ⟨other, released⟩, if_pos ⟨other, released⟩]
      rfl
    · rw [if_neg (fun both => released both.2), if_neg (fun both => released both.2)]
      rfl

theorem serializeOutput_signed (nOutput : Nat) (out : CTxOut)
    (found : txTo.vout[nOutput]? = some out) :
    serializeOutput txTo nIn nHashType nOutput =
      some (Format.txOut.write (signedOutput nIn nHashType nOutput out)) := by
  rw [serializeOutput, signedOutput]
  split
  · rfl
  · rw [found]
    rfl

theorem serializeSigned_transaction (vin : List CTxIn) (vout : List CTxOut)
    (inputs : (if fAnyoneCanPay nHashType then 1 else txTo.vin.length) = vin.length)
    (eachInput : ∀ i txin, vin[i]? = some txin →
      serializeInput txTo scriptCode nIn nHashType i = some (Format.txIn.write txin))
    (outputs : (if fHashNone nHashType then 0 else if fHashSingle nHashType then nIn + 1
      else txTo.vout.length) = vout.length)
    (eachOutput : ∀ i out, vout[i]? = some out →
      serializeOutput txTo nIn nHashType i = some (Format.txOut.write out)) :
    serializeSigned txTo scriptCode nIn nHashType =
      some (Format.transaction.write { txTo with vin, vout }) := by
  rw [serializeSigned, inputs, outputs, serializeEach_range _ Format.txIn.write vin eachInput,
    serializeEach_range _ Format.txOut.write vout eachOutput]
  rfl

theorem blankInputs_signed :
    blankInputs txTo kept nIn nHashType = txTo.vin.mapIdx (signedInput kept nIn nHashType) := by
  have released : ((fHashSingle nHashType || fHashNone nHashType) = true) ↔
      (nHashType &&& 0x1f = SIGHASH_NONE.toNat ∨ nHashType &&& 0x1f = SIGHASH_SINGLE.toNat) := by
    rw [Bool.or_eq_true, fHashSingle, fHashNone, beq_iff_eq, beq_iff_eq, or_comm]
  refine List.ext_getElem? fun i => ?_
  rw [blankInputs, List.getElem?_mapIdx]
  split
  next free =>
    rw [releaseSequences, List.getElem?_mapIdx, List.getElem?_modify, List.getElem?_map]
    cases txTo.vin[i]? with
    | none => rfl
    | some txin =>
        have free := released.mpr free
        by_cases own : nIn = i
        · subst own
          simp [signedInput]
        · have other : i ≠ nIn := fun same => own same.symm
          simp [signedInput, own, other, free]
  next bound =>
    rw [List.getElem?_modify, List.getElem?_map]
    cases txTo.vin[i]? with
    | none => rfl
    | some txin =>
        have bound : ¬ (fHashSingle nHashType || fHashNone nHashType) = true :=
          fun free => bound (released.mp free)
        by_cases own : nIn = i
        · subst own
          simp [signedInput]
        · have other : i ≠ nIn := fun same => own same.symm
          simp [signedInput, own, other, bound]

theorem blankOutputs_signed (i : Nat) (out : CTxOut)
    (found : (blankOutputs txTo nIn nHashType)[i]? = some out) :
    serializeOutput txTo nIn nHashType i = some (Format.txOut.write out) := by
  rw [blankOutputs] at found
  split at found
  next => cases found
  next =>
    split at found
    next single =>
      have fSingle : fHashSingle nHashType = true := by
        rw [fHashSingle, single]
        exact beq_self_eq_true _
      rw [List.getElem?_mapIdx, List.getElem?_take] at found
      obtain ⟨original, here, rfl⟩ := Option.map_eq_some_iff.mp found
      split at here
      next inside =>
        rw [serializeOutput_signed txTo nIn nHashType i original here, signedOutput]
        by_cases own : i = nIn
        · rw [if_neg (fun both => both.2 own), if_neg (by omega)]
        · rw [if_pos ⟨fSingle, own⟩, if_pos (by omega)]
      next => cases here
    next all =>
      have fAll : ¬ fHashSingle nHashType = true := by
        rw [fHashSingle, beq_iff_eq]
        exact all
      rw [serializeOutput_signed txTo nIn nHashType i out found, signedOutput,
        if_neg (fun both => fAll both.1)]

theorem blankOutputs_length (inside : ¬ (fHashSingle nHashType = true ∧ txTo.vout.length ≤ nIn)) :
    (if fHashNone nHashType then 0 else if fHashSingle nHashType then nIn + 1
      else txTo.vout.length) = (blankOutputs txTo nIn nHashType).length := by
  rw [blankOutputs]
  by_cases none_kept : nHashType &&& 0x1f = SIGHASH_NONE.toNat
  · have fNone : fHashNone nHashType = true := beq_iff_eq.mpr none_kept
    rw [if_pos fNone, if_pos none_kept]
    rfl
  · have fNone : ¬ fHashNone nHashType = true := fun same => none_kept (beq_iff_eq.mp same)
    rw [if_neg fNone, if_neg none_kept]
    by_cases single : nHashType &&& 0x1f = SIGHASH_SINGLE.toNat
    · have fSingle : fHashSingle nHashType = true := beq_iff_eq.mpr single
      have room : nIn < txTo.vout.length := by
        by_contra short
        exact inside ⟨fSingle, Nat.le_of_not_lt short⟩
      rw [if_pos fSingle, if_pos single, List.length_mapIdx, List.length_take]
      omega
    · have fSingle : ¬ fHashSingle nHashType = true := fun same => single (beq_iff_eq.mp same)
      rw [if_neg fSingle, if_neg single]

/-- The stream of the serializer is that of the modified copy, for every hash type. -/
theorem signatureHash_eq_old (parses : Parses scriptCode) :
    ∃ hashed, signatureHash txTo scriptCode nIn nHashType = some hashed ∧
      signatureHashOld scriptCode txTo nIn nHashType = some hashed := by
  have written := serializeScriptCode_parses scriptCode parses
  generalize kept_eq : (scriptCode.findAndDelete [OP_CODESEPARATOR]).2 = kept at written
  rw [signatureHash, signatureHashOld]
  by_cases outside : txTo.vin.length ≤ nIn
  · rw [if_pos outside, if_pos outside]
    exact ⟨.one, rfl, rfl⟩
  · rw [if_neg outside, if_neg outside]
    have single : fHashSingle nHashType = true ↔ nHashType &&& 0x1f = SIGHASH_SINGLE.toNat :=
      beq_iff_eq
    by_cases missing : fHashSingle nHashType = true ∧ txTo.vout.length ≤ nIn
    · rw [if_pos missing, if_pos ⟨single.mp missing.1, missing.2⟩]
      exact ⟨.one, rfl, rfl⟩
    · rw [if_neg missing, if_neg fun both => missing ⟨single.mpr both.1, both.2⟩]
      have outputs := blankOutputs_length txTo nIn nHashType missing
      have eachOutput := blankOutputs_signed txTo nIn nHashType
      have signed := serializeInput_signed txTo scriptCode kept nIn nHashType
      -- The inputs that are kept are written as the serializer writes them.
      obtain ⟨vin, keeps, inputs, eachInput⟩ : ∃ vin,
          keepSigned nIn nHashType (blankInputs txTo kept nIn nHashType) = some vin ∧
          (if fAnyoneCanPay nHashType then 1 else txTo.vin.length) = vin.length ∧
          ∀ i txin, vin[i]? = some txin →
            serializeInput txTo scriptCode nIn nHashType i = some (Format.txIn.write txin) := by
        rw [keepSigned, blankInputs_signed]
        by_cases anyone : nHashType &&& SIGHASH_ANYONECANPAY.toNat ≠ 0
        · have fAnyone : fAnyoneCanPay nHashType = true := bne_iff_ne.mpr anyone
          have here := List.getElem?_eq_getElem (Nat.lt_of_not_le outside)
          rw [if_pos anyone, if_pos fAnyone, List.getElem?_mapIdx, here]
          refine ⟨_, rfl, rfl, fun i txin found => ?_⟩
          have only : i = 0 := by
            by_contra later
            rw [List.getElem?_eq_none (by simp; omega)] at found
            cases found
          rw [only] at found ⊢
          cases found
          rw [signed 0 _ written (by rw [if_pos fAnyone]; exact here), if_pos fAnyone]
        · have fAnyone : ¬ fAnyoneCanPay nHashType = true := fun same => anyone (bne_iff_ne.mp same)
          rw [if_neg anyone, if_neg fAnyone]
          refine ⟨_, rfl, List.length_mapIdx.symm, fun i txin found => ?_⟩
          rw [List.getElem?_mapIdx] at found
          obtain ⟨original, here, rfl⟩ := Option.map_eq_some_iff.mp found
          rw [signed i original written (by rw [if_neg fAnyone]; exact here), if_neg fAnyone]
      rw [serializeSigned_transaction txTo scriptCode nIn nHashType vin _ inputs eachInput outputs
        eachOutput]
      refine ⟨_, rfl, ?_⟩
      rw [kept_eq]
      dsimp only
      rw [keeps]
      rfl

end equality

def twoInputs : CTransaction :=
  ⟨1, [⟨⟨5, 0⟩, [0x51], 7⟩, ⟨⟨6, 1⟩, [0x52], 9⟩], [⟨10, [0x53]⟩, ⟨20, [0x54]⟩], 0⟩

def separated : CScript := [OP_DUP, OP_CODESEPARATOR, OP_CHECKSIG]

theorem separated_parses : Parses separated :=
  .op OP_DUP [] _ [OP_CODESEPARATOR, OP_CHECKSIG] rfl
    (.op OP_CODESEPARATOR [] _ [OP_CHECKSIG] rfl (.op OP_CHECKSIG [] _ [] rfl .nil))

theorem signatureHash_eq_old_separated :
    ∃ hashed, signatureHash twoInputs separated 1 0x83 = some hashed ∧
      signatureHashOld separated twoInputs 1 0x83 = some hashed :=
  signatureHash_eq_old twoInputs separated 1 0x83 separated_parses

end CryptoYen
