import CryptoYen.Primitives.Script

set_option autoImplicit false

namespace CryptoYen

def OP_NOP : UInt8 := 0x61

theorem littleEndian_succ (width n : Nat) :
    littleEndian (width + 1) n = UInt8.ofNat (n % 256) :: littleEndian width (n / 256) := by
  rw [littleEndian, List.range_succ_eq_map, List.map_cons, List.map_map, Nat.pow_zero, Nat.div_one]
  refine congrArg (_ :: ·) (List.map_congr_left fun i _ => ?_)
  show UInt8.ofNat (n / 256 ^ (i + 1) % 256) = UInt8.ofNat (n / 256 / 256 ^ i % 256)
  rw [Nat.div_div_eq_div_mul, Nat.pow_succ, Nat.mul_comm]

theorem littleEndian_value (width n : Nat) (bound : n < 256 ^ width) :
    littleEndianValue (littleEndian width n) = n := by
  induction width generalizing n with
  | zero =>
      have zero : n = 0 := by simpa using bound
      simp [littleEndian, littleEndianValue, zero]
  | succ width ih =>
      have rest : n / 256 < 256 ^ width := by
        rw [Nat.div_lt_iff_lt_mul (by decide), ← Nat.pow_succ]
        exact bound
      rw [littleEndian_succ, littleEndianValue, ih _ rest, UInt8.toNat_ofNat']
      omega

theorem littleEndianValue_lt (bytes : List UInt8) :
    littleEndianValue bytes < 256 ^ bytes.length := by
  induction bytes with
  | nil => exact Nat.one_pos
  | cons byte rest ih =>
      have bound := byte.toNat_lt
      rw [littleEndianValue, List.length_cons, Nat.pow_succ]
      omega

@[simp] theorem littleEndian_length (width n : Nat) : (littleEndian width n).length = width := by
  simp [littleEndian]

namespace CScript

-- The bytes from a position on; none is an access out of range.
def slice (script : CScript) (pc size : Nat) : Option (List UInt8) :=
  if pc + size ≤ script.length then some ((script.drop pc).take size) else none

structure OpRead where
  fRet : Bool
  pc : Nat
  opcodeRet : UInt8
  vchRet : List UInt8
  deriving DecidableEq, Repr

section reading

variable (script : CScript)

def getOperand (opcode : UInt8) (nSize pc : Nat) : Option OpRead :=
  -- end() - pc < 0 || (unsigned int)(end() - pc) < nSize
  if (script.length : Int) - pc < 0 ∨ (script.length - pc) % 2 ^ 32 < nSize then
    some ⟨false, pc, OP_INVALIDOPCODE, []⟩
  else do
    let data ← script.slice pc nSize
    return ⟨true, pc + nSize, opcode, data⟩

def getOp2 (pc : Nat) : Option OpRead :=
  if script.length ≤ pc then some ⟨false, pc, OP_INVALIDOPCODE, []⟩
  else do
    let opcode ← script[pc]?
    let pc := pc + 1
    if OP_PUSHDATA4 < opcode then return ⟨true, pc, opcode, []⟩
    else if opcode < OP_PUSHDATA1 then script.getOperand opcode opcode.toNat pc
    else
      let width : Nat :=
        if opcode = OP_PUSHDATA1 then 1 else if opcode = OP_PUSHDATA2 then 2 else 4
      if (script.length : Int) - pc < width then return ⟨false, pc, OP_INVALIDOPCODE, []⟩
      else
        let size ← script.slice pc width
        script.getOperand opcode (littleEndianValue size) (pc + width)

-- GetOp again and again until it returns false: the opcodes, their data and the last position.
def getOpsFrom : Nat → Nat → Option (List (UInt8 × List UInt8) × Nat)
  | 0, _ => none
  | fuel + 1, pc =>
      match script.getOp2 pc with
      | none => none
      | some ⟨false, stop, _, _⟩ => some ([], stop)
      | some ⟨true, next, opcode, data⟩ =>
          (getOpsFrom fuel next).map fun (ops, stop) => ((opcode, data) :: ops, stop)

def getOps : Option (List (UInt8 × List UInt8) × Nat) :=
  script.getOpsFrom (script.length + 1) 0

end reading

section steps

variable (script : CScript)

structure Reads (pc : Nat) (read : OpRead) : Prop where
  forward : pc ≤ read.pc
  inside : read.pc ≤ script.length
  moved : read.fRet = true → pc < read.pc
  found : getOp (script.drop pc) =
    if read.fRet then some (read.opcodeRet, read.vchRet, script.drop read.pc) else none

theorem slice_inside (pc size : Nat) (inside : pc + size ≤ script.length) :
    script.slice pc size = some ((script.drop pc).take size) := by
  rw [slice, if_pos inside]

theorem getOperand_reads (opcode : UInt8) (nSize pc start : Nat) (inside : pc ≤ script.length)
    (after : start < pc)
    (here : getOp (script.drop start) =
      if (script.drop pc).length % 2 ^ 32 < nSize then none
      else some (opcode, (script.drop pc).take nSize, (script.drop pc).drop nSize)) :
    ∃ read, script.getOperand opcode nSize pc = some read ∧ script.Reads start read := by
  have ahead : ¬ (script.length : Int) - pc < 0 := by omega
  rw [List.length_drop] at here
  by_cases short : (script.length - pc) % 2 ^ 32 < nSize
  · refine ⟨_, if_pos (Or.inr short), Nat.le_of_lt after, inside, fun ok => Bool.noConfusion ok, ?_⟩
    rw [here, if_pos short]
    rfl
  · have low := Nat.mod_le (script.length - pc) (2 ^ 32)
    have room : pc + nSize ≤ script.length := by omega
    refine ⟨⟨true, pc + nSize, opcode, (script.drop pc).take nSize⟩, ?_, ?_⟩
    · rw [getOperand, if_neg (not_or.mpr ⟨ahead, short⟩), slice_inside script pc nSize room]
      rfl
    · refine ⟨by dsimp only; omega, room, fun _ => by dsimp only; omega, ?_⟩
      rw [here, if_neg short, List.drop_drop]
      rfl

theorem getOp2_reads (pc : Nat) (inside : pc ≤ script.length) :
    ∃ read, script.getOp2 pc = some read ∧ script.Reads pc read := by
  by_cases ended : script.length ≤ pc
  · refine ⟨_, if_pos ended, Nat.le_refl pc, inside, fun ok => Bool.noConfusion ok, ?_⟩
    rw [List.drop_eq_nil_of_le ended]
    rfl
  · have here : pc < script.length := Nat.lt_of_not_le ended
    have cell : script.drop pc = script[pc] :: script.drop (pc + 1) :=
      List.drop_eq_getElem_cons here
    rw [getOp2, if_neg ended, List.getElem?_eq_getElem here, Option.bind_eq_bind, Option.bind_some]
    by_cases plain : OP_PUSHDATA4 < script[pc]
    · refine ⟨⟨true, pc + 1, script[pc], []⟩, by rw [if_pos plain]; rfl, Nat.le_succ pc, here,
        fun _ => Nat.lt_succ_self pc, ?_⟩
      rw [cell, getOp, if_pos plain]
      rfl
    · rw [if_neg plain]
      by_cases direct : script[pc] < OP_PUSHDATA1
      · rw [if_pos direct]
        apply script.getOperand_reads _ _ _ pc here (Nat.lt_succ_self pc)
        rw [cell, getOp, if_neg plain, immediateSize, if_pos direct]
        rfl
      · rw [if_neg direct]
        generalize wide : (if script[pc] = OP_PUSHDATA1 then 1
          else if script[pc] = OP_PUSHDATA2 then 2 else 4 : Nat) = width
        have sized : immediateSize script[pc] (script.drop (pc + 1)) =
            if (script.drop (pc + 1)).length < width then none
            else some (littleEndianValue ((script.drop (pc + 1)).take width),
              (script.drop (pc + 1)).drop width) := by
          rw [immediateSize, if_neg direct, ← wide]
        dsimp only
        by_cases cut : (script.length : Int) - (pc + 1 : Nat) < width
        · refine ⟨⟨false, pc + 1, OP_INVALIDOPCODE, []⟩, by rw [if_pos cut]; rfl, Nat.le_succ pc,
            here, fun ok => Bool.noConfusion ok, ?_⟩
          rw [cell, getOp, if_neg plain, sized, List.length_drop, if_pos (by omega)]
          rfl
        · have room : pc + 1 + width ≤ script.length := by omega
          rw [if_neg cut, slice_inside script _ _ room, Option.bind_eq_bind,
            Option.bind_some]
          apply script.getOperand_reads _ _ _ pc room (by omega)
          rw [cell, getOp, if_neg plain, sized, List.length_drop, if_neg (by omega),
            List.drop_drop]
          rfl

theorem getOpsFrom_total (fuel pc : Nat) (inside : pc ≤ script.length)
    (enough : script.length < pc + fuel) :
    ∃ ops stop, script.getOpsFrom fuel pc = some (ops, stop) ∧ stop ≤ script.length := by
  induction fuel generalizing pc with
  | zero => omega
  | succ fuel ih =>
      obtain ⟨⟨fRet, next, opcode, data⟩, called, reads⟩ := script.getOp2_reads pc inside
      rw [getOpsFrom, called]
      cases fRet with
      | false => exact ⟨[], next, rfl, reads.inside⟩
      | true =>
          have moved : pc < next := reads.moved rfl
          obtain ⟨ops, stop, rest, bounded⟩ := ih next reads.inside (by omega)
          exact ⟨(opcode, data) :: ops, stop, by simp only [rest, Option.map_some], bounded⟩

end steps

theorem getOp_shorter (pc rest : CScript) (opcode : UInt8) (data : List UInt8)
    (found : getOp pc = some (opcode, data, rest)) : rest.length < pc.length := by
  obtain ⟨read, _, reads⟩ := getOp2_reads pc 0 (Nat.zero_le _)
  have same := reads.found
  rw [List.drop_zero, found] at same
  cases ok : read.fRet with
  | false =>
      rw [ok] at same
      cases same
  | true =>
      rw [ok] at same
      cases same
      have moved := reads.moved ok
      have inside := reads.inside
      rw [List.length_drop]
      omega

def pushOpcode (b : List UInt8) : UInt8 :=
  if b.length < 0x4c then UInt8.ofNat b.length
  else if b.length ≤ 0xff then OP_PUSHDATA1
  else if b.length ≤ 0xffff then OP_PUSHDATA2
  else OP_PUSHDATA4

theorem getOp_plain (opcode : UInt8) (above : OP_PUSHDATA4 < opcode) (rest : CScript) :
    getOp (opcode :: rest) = some (opcode, [], rest) := by
  rw [getOp, if_pos above]

theorem getOp_head (pc rest : CScript) (opcode : UInt8) (data : List UInt8)
    (found : getOp pc = some (opcode, data, rest)) : ∃ tail, pc = opcode :: tail := by
  cases pc with
  | nil => cases found
  | cons byte tail =>
      refine ⟨tail, ?_⟩
      by_cases above : OP_PUSHDATA4 < byte
      · rw [getOp_plain byte above] at found
        cases found
        rfl
      · rw [getOp, if_neg above] at found
        obtain ⟨⟨nSize, pc⟩, _, found⟩ := Option.bind_eq_some_iff.mp found
        dsimp only at found
        split at found
        · cases found
        · cases found
          rfl

theorem getOp_sized (opcode : UInt8) (width : Nat) (b rest : List UInt8)
    (low : ¬ OP_PUSHDATA4 < opcode) (high : ¬ opcode < OP_PUSHDATA1)
    (wide : (if opcode = OP_PUSHDATA1 then 1 else if opcode = OP_PUSHDATA2 then 2 else 4 : Nat) =
      width) (bound : b.length < 256 ^ width) :
    getOp (opcode :: (littleEndian width b.length ++ b) ++ rest) =
      if (b.length + rest.length) % 2 ^ 32 < b.length then none else some (opcode, b, rest) := by
  have enough : ¬ (littleEndian width b.length ++ (b ++ rest)).length < width := by
    rw [List.length_append, littleEndian_length]
    omega
  have size : (littleEndian width b.length ++ (b ++ rest)).take width = littleEndian width b.length :=
    List.take_left' (littleEndian_length ..)
  have behind : (littleEndian width b.length ++ (b ++ rest)).drop width = b ++ rest :=
    List.drop_left' (littleEndian_length ..)
  rw [List.cons_append, List.append_assoc, getOp, if_neg low, immediateSize, if_neg high, wide]
  dsimp only
  rw [if_neg enough, size, behind, littleEndian_value width _ bound, Option.bind_eq_bind,
    Option.bind_some, List.length_append, List.take_left, List.drop_left]

theorem getOp_pushData (b rest : List UInt8) (short : b.length < 2 ^ 32) :
    getOp (pushData b ++ rest) =
      if (b.length + rest.length) % 2 ^ 32 < b.length then none
      else some (pushOpcode b, b, rest) := by
  rw [pushData, pushOpcode]
  by_cases direct : b.length < 0x4c
  · have value : (UInt8.ofNat b.length).toNat = b.length := by
      rw [UInt8.toNat_ofNat']
      omega
    have low : ¬ OP_PUSHDATA4 < UInt8.ofNat b.length := by
      rw [UInt8.lt_iff_toNat_lt, value]
      simp only [OP_PUSHDATA4, UInt8.reduceToNat]
      omega
    have small : UInt8.ofNat b.length < OP_PUSHDATA1 := by
      rw [UInt8.lt_iff_toNat_lt, value]
      simp only [OP_PUSHDATA1, UInt8.reduceToNat]
      omega
    rw [if_pos direct, if_pos direct, List.cons_append, getOp, if_neg low, immediateSize,
      if_pos small, value, Option.bind_eq_bind, Option.bind_some]
    dsimp only
    rw [List.length_append, List.take_left, List.drop_left]
  · rw [if_neg direct, if_neg direct]
    by_cases one : b.length ≤ 0xff
    · have byte : littleEndian 1 b.length = [UInt8.ofNat b.length] := by
        rw [littleEndian_succ, Nat.mod_eq_of_lt (by omega)]
        rfl
      rw [if_pos one, if_pos one]
      have form := getOp_sized OP_PUSHDATA1 1 b rest (by decide) (by decide) rfl (by omega)
      rw [byte] at form
      exact form
    · rw [if_neg one, if_neg one]
      by_cases two : b.length ≤ 0xffff
      · rw [if_pos two, if_pos two]
        exact getOp_sized OP_PUSHDATA2 2 b rest (by decide) (by decide) (by decide) (by omega)
      · rw [if_neg two, if_neg two]
        exact getOp_sized OP_PUSHDATA4 4 b rest (by decide) (by decide) (by decide) (by omega)

inductive ScriptItem where
  | op (opcode : UInt8) (above : OP_PUSHDATA4 < opcode)
  | data (b : List UInt8) (short : b.length < 2 ^ 32)

namespace ScriptItem

def write : ScriptItem → CScript
  | .op opcode _ => [opcode]
  | .data b _ => pushData b

def read : ScriptItem → UInt8 × List UInt8
  | .op opcode _ => (opcode, [])
  | .data b _ => (pushOpcode b, b)

end ScriptItem

def build (items : List ScriptItem) : CScript :=
  items.foldl (fun script item => script ++ item.write) []

/-- No push is cut off by the 32 bits in which the bytes up to the end are counted. -/
def InReach : List ScriptItem → Prop
  | [] => True
  | .op _ _ :: rest => InReach rest
  | .data b _ :: rest =>
      b.length ≤ (b.length + (build rest).length) % 2 ^ 32 ∧ InReach rest

theorem build_cons (item : ScriptItem) (rest : List ScriptItem) :
    build (item :: rest) = item.write ++ build rest := by
  have appended (items : List ScriptItem) (start : CScript) :
      items.foldl (fun script item => script ++ item.write) start = start ++ build items := by
    induction items generalizing start with
    | nil => exact (List.append_nil start).symm
    | cons item items ih =>
        rw [build, List.foldl_cons, List.foldl_cons, ih, ih ([] ++ item.write), List.nil_append,
          List.append_assoc]
  rw [build, List.foldl_cons, appended, List.nil_append]

section

variable (script : CScript)

theorem getOpsFrom_cons (fuel pc : Nat) (opcode : UInt8) (data rest : List UInt8)
    (inside : pc ≤ script.length) (found : getOp (script.drop pc) = some (opcode, data, rest)) :
    ∃ next, next ≤ script.length ∧ script.drop next = rest ∧
      script.getOpsFrom (fuel + 1) pc =
        (script.getOpsFrom fuel next).map fun (ops, stop) => ((opcode, data) :: ops, stop) := by
  obtain ⟨⟨fRet, next, opcode', data'⟩, called, reads⟩ := script.getOp2_reads pc inside
  have same := reads.found.symm.trans found
  cases fRet with
  | false => cases same
  | true =>
      cases same
      exact ⟨next, reads.inside, rfl, by rw [getOpsFrom, called]⟩

theorem getOpsFrom_none (fuel pc : Nat) (inside : pc ≤ script.length)
    (failed : getOp (script.drop pc) = none) :
    ∃ stop, script.getOpsFrom (fuel + 1) pc = some ([], stop) ∧
      (script.drop pc = [] → stop = pc) := by
  obtain ⟨⟨fRet, next, opcode', data'⟩, called, reads⟩ := script.getOp2_reads pc inside
  have same := reads.found.symm.trans failed
  cases fRet with
  | true => cases same
  | false =>
      refine ⟨next, by rw [getOpsFrom, called], fun ended => ?_⟩
      have length := congrArg List.length ended
      rw [List.length_drop, List.length_nil] at length
      have forward : pc ≤ next := reads.forward
      have bounded : next ≤ script.length := reads.inside
      omega

theorem getOpsFrom_build (items : List ScriptItem) (fuel pc : Nat)
    (here : script.drop pc = build items) (inside : pc ≤ script.length)
    (enough : items.length < fuel) :
    script.getOpsFrom fuel pc = some (items.map ScriptItem.read, script.length) ↔
      InReach items := by
  induction items generalizing fuel pc with
  | nil =>
      obtain ⟨fuel, rfl⟩ : ∃ n, fuel = n + 1 := ⟨fuel - 1, by omega⟩
      obtain ⟨stop, read, ended⟩ := script.getOpsFrom_none fuel pc inside (by rw [here]; rfl)
      have length := congrArg List.length here
      rw [List.length_drop, build, List.foldl_nil, List.length_nil] at length
      rw [read, ended here, show pc = script.length by omega]
      exact iff_of_true rfl trivial
  | cons item items ih =>
      rw [List.length_cons] at enough
      obtain ⟨fuel, rfl⟩ : ∃ n, fuel = n + 1 := ⟨fuel - 1, by omega⟩
      rw [build_cons] at here
      -- Behind the item the rest of the script is read as it was built.
      have onward (opcode : UInt8) (data : List UInt8) (same : item.read = (opcode, data))
          (found : getOp (script.drop pc) = some (opcode, data, build items)) :
          script.getOpsFrom (fuel + 1) pc =
            some ((item :: items).map ScriptItem.read, script.length) ↔ InReach items := by
        obtain ⟨next, bounded, rest, read⟩ := script.getOpsFrom_cons fuel pc opcode data _ inside
          found
        rw [read, List.map_cons, same, ← ih fuel next rest bounded (by omega)]
        cases script.getOpsFrom fuel next with
        | none => exact iff_of_false (by simp) (by simp)
        | some result =>
            simp only [Option.map_some, Option.some_inj, Prod.ext_iff, List.cons.injEq, true_and]
      cases item with
      | op opcode above => exact onward opcode [] rfl (by rw [here]; exact getOp_plain opcode above _)
      | data b short =>
          have pushed := getOp_pushData b (build items) short
          rw [show pushData b = (ScriptItem.data b short).write from rfl, ← here] at pushed
          rw [InReach]
          by_cases cut : (b.length + (build items).length) % 2 ^ 32 < b.length
          · rw [if_pos cut] at pushed
            obtain ⟨stop, read, _⟩ := script.getOpsFrom_none fuel pc inside pushed
            rw [read]
            refine iff_of_false ?_ (fun reach => Nat.not_le_of_lt cut reach.1)
            intro same
            cases same
          · rw [if_neg cut] at pushed
            rw [and_iff_right (Nat.le_of_not_lt cut)]
            exact onward (pushOpcode b) b rfl pushed

end

theorem pushData_length (b : List UInt8) : b.length < (pushData b).length := by
  rw [pushData]
  split
  · rw [List.length_cons]
    omega
  · split
    · rw [List.length_cons, List.length_cons]
      omega
    · split <;> (rw [List.length_append, List.length_cons]; omega)

theorem length_le_build (items : List ScriptItem) : items.length ≤ (build items).length := by
  induction items with
  | nil => exact Nat.le_refl 0
  | cons item items ih =>
      have some_byte : 0 < item.write.length := by
        cases item with
        | op opcode above => exact Nat.one_pos
        | data b short =>
            exact Nat.zero_lt_of_lt (pushData_length b)
      rw [build_cons, List.length_append, List.length_cons]
      omega

theorem getOps_build (items : List ScriptItem) :
    (build items).getOps = some (items.map ScriptItem.read, (build items).length) ↔
      InReach items := by
  have long := length_le_build items
  exact (build items).getOpsFrom_build items _ 0 rfl (Nat.zero_le _) (by omega)

/-- A script of less than four gigabytes has all its pushes in reach. -/
theorem inReach_of_short (items : List ScriptItem) (short : (build items).length < 2 ^ 32) :
    InReach items := by
  induction items with
  | nil => trivial
  | cons item items ih =>
      rw [build_cons, List.length_append] at short
      cases item with
      | op opcode above => exact ih (by omega)
      | data b bound =>
          have pushed : b.length < (ScriptItem.data b bound).write.length := pushData_length b
          refine ⟨?_, ih (by omega)⟩
          rw [Nat.mod_eq_of_lt (by omega)]
          exact Nat.le_add_right _ _

/-- What was appended to a script is read back just when no push is cut off, and whatever the
bytes are, GetOp stays inside the script and comes to an end. -/
theorem getOps_of_build (items : List ScriptItem) :
    ((build items).getOps = some (items.map ScriptItem.read, (build items).length) ↔
      InReach items) ∧
    (∀ (script : CScript) (pc : Nat), pc ≤ script.length →
      ∃ read, script.getOp2 pc = some read ∧ pc ≤ read.pc ∧ read.pc ≤ script.length) ∧
    ∀ script : CScript, ∃ ops stop, script.getOps = some (ops, stop) ∧ stop ≤ script.length := by
  refine ⟨getOps_build items, ?_, ?_⟩
  · intro script pc inside
    obtain ⟨read, called, reads⟩ := script.getOp2_reads pc inside
    exact ⟨read, called, reads.forward, reads.inside⟩
  · intro script
    exact script.getOpsFrom_total _ 0 (Nat.zero_le _) (by omega)

def pushThenNops (n : Nat) : List ScriptItem :=
  .data [7] (by decide) :: List.replicate n (.op OP_NOP (by decide))

theorem inReach_pushThenNops (n : Nat) : InReach (pushThenNops n) → 1 ≤ (1 + n) % 2 ^ 32 := by
  have length : (build (List.replicate n (.op OP_NOP (by decide)))).length = n := by
    induction n with
    | zero => rfl
    | succ n ih =>
        rw [List.replicate_succ, build_cons, List.length_append, ih]
        exact Nat.add_comm 1 n
  intro reach
  have first := reach.1
  rwa [length] at first

theorem getOps_wrapped :
    ¬ (build (pushThenNops (2 ^ 32 - 1))).getOps =
      some ((pushThenNops (2 ^ 32 - 1)).map ScriptItem.read,
        (build (pushThenNops (2 ^ 32 - 1))).length) := by
  intro read
  exact absurd (inReach_pushThenNops _ ((getOps_build _).mp read)) (by decide)

end CScript

end CryptoYen
