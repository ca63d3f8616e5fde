import CryptoYen.Script.Encoding

set_option autoImplicit false

namespace CryptoYen

def OP_SMALLINTEGER : UInt8 := 0xfa
def OP_PUBKEYS : UInt8 := 0xfb
def OP_PUBKEYHASH : UInt8 := 0xfd
def OP_PUBKEY : UInt8 := 0xfe

inductive TxnOutType
  | nonstandard | pubkey | pubkeyhash | scripthash | multisig | nullData
  deriving DecidableEq, Repr

inductive CTxDestination
  | noDestination
  | keyID (id : BitVec 160)
  | scriptID (id : BitVec 160)
  deriving DecidableEq, Repr

def toByteVector (id : BitVec 160) : Valtype := littleEndian 20 id.toNat
def uint160 (vch : Valtype) : BitVec 160 := BitVec.ofNat 160 (littleEndianValue vch)

namespace CScript

-- none is an assertion that fails.
def decodeOP_N (opcode : UInt8) : Option Nat :=
  if opcode = OP_0 then some 0
  else if OP_1 ≤ opcode ∧ opcode ≤ OP_16 then some (opcode.toNat - (OP_1.toNat - 1))
  else none

def encodeOP_N (n : Int) : Option UInt8 :=
  if 0 ≤ n ∧ n ≤ 16 then
    some (if n = 0 then OP_0 else UInt8.ofNat (OP_1.toNat + n.toNat - 1))
  else none

end CScript

section solver

-- In the order of the multimap, which is that of the types.
def mTemplates : List (TxnOutType × CScript) :=
  [(.pubkey, [OP_PUBKEY, OP_CHECKSIG]),
    (.pubkeyhash, [OP_DUP, OP_HASH160, OP_PUBKEYHASH, OP_EQUALVERIFY, OP_CHECKSIG]),
    (.multisig, [OP_SMALLINTEGER, OP_PUBKEYS, OP_SMALLINTEGER, OP_CHECKMULTISIG])]

def isKeySize (vch : Valtype) : Bool := 33 ≤ vch.length && vch.length ≤ 65

structure Reading where
  opcode1 : UInt8
  vch1 : Valtype
  pc1 : CScript
  vSolutionsRet : List Valtype
  deriving DecidableEq, Repr

def readKeys : Nat → Reading → Reading
  | 0, at_ => at_
  | fuel + 1, at_ =>
      if isKeySize at_.vch1 then
        let vSolutionsRet := at_.vSolutionsRet ++ [at_.vch1]
        match CScript.getOp at_.pc1 with
        | none => ⟨OP_INVALIDOPCODE, [], at_.pc1, vSolutionsRet⟩
        | some (opcode1, vch1, pc1) => readKeys fuel ⟨opcode1, vch1, pc1, vSolutionsRet⟩
      else at_

-- The solutions after an operation against one of the template; none is no match.
def matchOp (at_ : Reading) (opcode2 : UInt8) (vch2 : Valtype) : Option (List Valtype) :=
  if opcode2 = OP_PUBKEY then
    if isKeySize at_.vch1 then some (at_.vSolutionsRet ++ [at_.vch1]) else none
  else if opcode2 = OP_PUBKEYHASH then
    if at_.vch1.length ≠ 20 then none else some (at_.vSolutionsRet ++ [at_.vch1])
  else if opcode2 = OP_SMALLINTEGER then
    -- Single-byte small integer pushed onto vSolutions
    if at_.opcode1 = OP_0 ∨ (OP_1 ≤ at_.opcode1 ∧ at_.opcode1 ≤ OP_16) then
      (CScript.decodeOP_N at_.opcode1).map fun n => at_.vSolutionsRet ++ [[UInt8.ofNat n]]
    else none
  else if at_.opcode1 ≠ opcode2 ∨ at_.vch1 ≠ vch2 then none
  else some at_.vSolutionsRet

def matchTemplate : Nat → CScript → CScript → List Valtype → Option (List Valtype)
  | 0, _, _, _ => none
  | fuel + 1, pc1, pc2, vSolutionsRet =>
      if pc1 = [] ∧ pc2 = [] then some vSolutionsRet
      else
        match CScript.getOp pc1, CScript.getOp pc2 with
        | some (opcode1, vch1, pc1), some (opcode2, vch2, pc2) =>
            if opcode2 = OP_PUBKEYS then
              let at_ := readKeys (pc1.length + 1) ⟨opcode1, vch1, pc1, vSolutionsRet⟩
              match CScript.getOp pc2 with
              | none => none
              | some (opcode2, vch2, pc2) =>
                  (matchOp at_ opcode2 vch2).bind (matchTemplate fuel at_.pc1 pc2)
            else
              (matchOp ⟨opcode1, vch1, pc1, vSolutionsRet⟩ opcode2 vch2).bind
                (matchTemplate fuel pc1 pc2)
        | _, _ => none

def checkMultisig (vSolutionsRet : List Valtype) : Bool :=
  let m := (vSolutionsRet.headD []).getD 0 0
  let n := (vSolutionsRet.getLastD []).getD 0 0
  !(m < 1 || n < 1 || n < m || vSolutionsRet.length - 2 != n.toNat)

def scanTemplates (scriptPubKey : CScript) :
    List (TxnOutType × CScript) → Bool × TxnOutType × List Valtype
  | [] => (false, .nonstandard, [])
  | (typeRet, script2) :: rest =>
      match matchTemplate (script2.length + 1) scriptPubKey script2 [] with
      | none => scanTemplates scriptPubKey rest
      | some vSolutionsRet =>
          if typeRet = .multisig then (checkMultisig vSolutionsRet, typeRet, vSolutionsRet)
          else (true, typeRet, vSolutionsRet)

def isNullData (scriptPubKey : CScript) : Bool :=
  match scriptPubKey with
  | [] => false
  | first :: rest => first == OP_RETURN && CScript.isPushOnly rest

-- The returned value, typeRet, and what vSolutionsRet has become.
def solver (scriptPubKey : CScript) (vSolutionsRet : List Valtype) :
    Bool × TxnOutType × List Valtype :=
  if scriptPubKey.isPayToScriptHash then
    (true, .scripthash, vSolutionsRet ++ [(scriptPubKey.drop 2).take 20])
  else if isNullData scriptPubKey then (true, .nullData, vSolutionsRet)
  else scanTemplates scriptPubKey mTemplates

def pubKeyLen (chHeader : UInt8) : Nat :=
  if chHeader = 2 ∨ chHeader = 3 then 33
  else if chHeader = 4 ∨ chHeader = 6 ∨ chHeader = 7 then 65
  else 0

def pubKeyIsValid (vch : Valtype) : Bool :=
  match vch with
  | [] => false
  | chHeader :: _ => pubKeyLen chHeader != 0 && pubKeyLen chHeader == vch.length

def hash160 [ScriptCrypto] (vch : Valtype) : BitVec 160 :=
  uint160 (ScriptCrypto.ripemd160 (ScriptCrypto.sha256 vch).toList).toList

def extractDestination [ScriptCrypto] (scriptPubKey : CScript) : Option CTxDestination :=
  match solver scriptPubKey [] with
  | (true, .pubkey, vSolutions) =>
      let pubKey := vSolutions.headD []
      if pubKeyIsValid pubKey then some (.keyID (hash160 pubKey)) else none
  | (true, .pubkeyhash, vSolutions) => some (.keyID (uint160 (vSolutions.headD [])))
  | (true, .scripthash, vSolutions) => some (.scriptID (uint160 (vSolutions.headD [])))
  -- Multisig txns have more than one address...
  | _ => none

end solver

def scriptWithPush (push : Valtype → CScript) : CTxDestination → CScript
  | .noDestination => []
  | .keyID id =>
      [OP_DUP, OP_HASH160] ++ (push (toByteVector id) ++ [OP_EQUALVERIFY, OP_CHECKSIG])
  | .scriptID id => [OP_HASH160] ++ (push (toByteVector id) ++ [OP_EQUAL])

def getScriptForDestination (dest : CTxDestination) : CScript :=
  scriptWithPush CScript.pushData dest

def getScriptForMultisig (nRequired : Int) (keys : List Valtype) : Option CScript := do
  let required ← CScript.encodeOP_N nRequired
  let count ← CScript.encodeOP_N keys.length
  return [required] ++ (keys.flatMap CScript.pushData ++ [count, OP_CHECKMULTISIG])

def pushWith (opcode : UInt8) (b : Valtype) : CScript :=
  if opcode = OP_PUSHDATA1 then opcode :: (littleEndian 1 b.length ++ b)
  else if opcode = OP_PUSHDATA2 then opcode :: (littleEndian 2 b.length ++ b)
  else if opcode = OP_PUSHDATA4 then opcode :: (littleEndian 4 b.length ++ b)
  else opcode :: b

section hashes

theorem littleEndian_of_value (bytes : Valtype) :
    littleEndian bytes.length (littleEndianValue bytes) = bytes := by
  induction bytes with
  | nil => rfl
  | cons byte rest ih =>
      have bound := byte.toNat_lt
      rw [List.length_cons, littleEndian_succ, littleEndianValue,
        show (byte.toNat + 256 * littleEndianValue rest) % 256 = byte.toNat by omega,
        show (byte.toNat + 256 * littleEndianValue rest) / 256 = littleEndianValue rest by omega,
        ih, UInt8.ofNat_toNat]

theorem uint160_toByteVector (id : BitVec 160) : uint160 (toByteVector id) = id := by
  rw [uint160, toByteVector, littleEndian_value 20 _ id.isLt, BitVec.ofNat_toNat, BitVec.setWidth_eq]

theorem toByteVector_uint160 (vch : Valtype) (length : vch.length = 20) :
    toByteVector (uint160 vch) = vch := by
  have bound : littleEndianValue vch < 2 ^ 160 := by
    have low := littleEndianValue_lt vch
    rw [length] at low
    exact low
  rw [uint160, toByteVector, BitVec.toNat_ofNat, Nat.mod_eq_of_lt bound, ← length]
  exact littleEndian_of_value vch

theorem toByteVector_length (id : BitVec 160) : (toByteVector id).length = 20 :=
  littleEndian_length 20 _

end hashes

section pushes

theorem getOp_sized_inv (opcode opcode' : UInt8) (width : Nat) (tail rest : CScript)
    (data : Valtype) (push : ¬ OP_PUSHDATA4 < opcode)
    (sized : CScript.immediateSize opcode tail =
      if tail.length < width then none
      else some (littleEndianValue (tail.take width), tail.drop width))
    (found : CScript.getOp (opcode :: tail) = some (opcode', data, rest)) :
    opcode' = opcode ∧ tail = littleEndian width data.length ++ (data ++ rest) := by
  rw [CScript.getOp, if_neg push, sized] at found
  by_cases cut : tail.length < width
  · rw [if_pos cut] at found
    cases found
  · rw [if_neg cut, Option.bind_eq_bind, Option.bind_some] at found
    dsimp only at found
    split at found
    · cases found
    next inside =>
      rw [Option.some_inj, Prod.mk.injEq, Prod.mk.injEq] at found
      obtain ⟨same, read, left⟩ := found
      have low := Nat.mod_le (tail.drop width).length (2 ^ 32)
      have length : data.length = littleEndianValue (tail.take width) := by
        rw [← read, List.length_take]
        omega
      have size : littleEndian width data.length = tail.take width := by
        have whole := littleEndian_of_value (tail.take width)
        rwa [List.length_take, Nat.min_eq_left (Nat.le_of_not_lt cut), ← length] at whole
      refine ⟨same.symm, ?_⟩
      rw [size, ← read, ← left, List.take_append_drop, List.take_append_drop]

theorem getOp_push_inv (pc rest : CScript) (opcode : UInt8) (data : Valtype)
    (found : CScript.getOp pc = some (opcode, data, rest)) (push : opcode ≤ OP_PUSHDATA4) :
    pc = pushWith opcode data ++ rest ∧ (opcode < OP_PUSHDATA1 → data.length = opcode.toNat) := by
  obtain ⟨tail, rfl⟩ := CScript.getOp_head pc rest opcode data found
  have below : ¬ OP_PUSHDATA4 < opcode := UInt8.not_lt.mpr push
  by_cases direct : opcode < OP_PUSHDATA1
  · have plain (other : UInt8) (above : OP_PUSHDATA1 ≤ other) : opcode ≠ other := by
      rintro rfl
      exact UInt8.not_lt.mpr above direct
    rw [pushWith, if_neg (plain _ (by decide)), if_neg (plain _ (by decide)),
      if_neg (plain _ (by decide))]
    rw [CScript.getOp, if_neg below, CScript.immediateSize, if_pos direct, Option.bind_eq_bind,
      Option.bind_some] at found
    dsimp only at found
    split at found
    · cases found
    next inside =>
      cases found
      have low := Nat.mod_le tail.length (2 ^ 32)
      refine ⟨?_, fun _ => ?_⟩
      · rw [List.cons_append, List.take_append_drop]
      · rw [List.length_take]
        omega
  · have sized (width : Nat)
        (same : (if opcode = OP_PUSHDATA1 then 1 else if opcode = OP_PUSHDATA2 then 2 else 4) = width) :
        tail = littleEndian width data.length ++ (data ++ rest) := by
      refine (getOp_sized_inv opcode opcode width tail rest data below ?_ found).2
      rw [← same, CScript.immediateSize, if_neg direct]
    refine ⟨?_, fun low => absurd low direct⟩
    rw [pushWith]
    by_cases one : opcode = OP_PUSHDATA1
    · rw [if_pos one, List.cons_append, List.append_assoc, ← sized 1 (if_pos one)]
    · rw [if_neg one] at sized ⊢
      by_cases two : opcode = OP_PUSHDATA2
      · rw [if_pos two, List.cons_append, List.append_assoc, ← sized 2 (if_pos two)]
      · have four : opcode = OP_PUSHDATA4 := by
          have low := UInt8.not_lt.mp direct
          rw [UInt8.le_iff_toNat_le] at low push
          rw [← UInt8.toNat_inj] at one two ⊢
          simp only [OP_PUSHDATA1, OP_PUSHDATA2, OP_PUSHDATA4, UInt8.reduceToNat] at *
          omega
        rw [if_neg two, if_pos four, List.cons_append, List.append_assoc, ← sized 4 (if_neg two)]

end pushes

section templates

def isOrdinary (opcode2 : UInt8) : Bool :=
  OP_PUSHDATA4 < opcode2 && opcode2 != OP_PUBKEYS && opcode2 != OP_PUBKEY &&
    opcode2 != OP_PUBKEYHASH && opcode2 != OP_SMALLINTEGER

variable (fuel : Nat) (pc1 pc2 : CScript) (vSolutionsRet result : List Valtype)

theorem matchTemplate_end :
    matchTemplate (fuel + 1) pc1 [] vSolutionsRet = some result ↔
      pc1 = [] ∧ vSolutionsRet = result := by
  rw [matchTemplate]
  by_cases ended : pc1 = []
  · rw [if_pos ⟨ended, rfl⟩, Option.some_inj]
    exact (and_iff_right ended).symm
  · rw [if_neg fun both => ended both.1]
    refine iff_of_false ?_ fun both => ended both.1
    intro matched
    split at matched
    next _ _ _ _ _ _ _ read => cases read
    next => cases matched

theorem matchTemplate_ordinary (opcode2 : UInt8) (ordinary : isOrdinary opcode2 = true) :
    matchTemplate (fuel + 1) pc1 (opcode2 :: pc2) vSolutionsRet = some result ↔
      ∃ rest, pc1 = opcode2 :: rest ∧ matchTemplate fuel rest pc2 vSolutionsRet = some result := by
  simp only [isOrdinary, Bool.and_eq_true, decide_eq_true_eq, bne_iff_ne] at ordinary
  obtain ⟨⟨⟨⟨above, no_keys⟩, no_key⟩, no_hash⟩, no_integer⟩ := ordinary
  rw [matchTemplate, if_neg (fun both => List.cons_ne_nil _ _ both.2),
    CScript.getOp_plain opcode2 above]
  cases found : CScript.getOp pc1 with
  | none =>
      refine iff_of_false (fun matched => by cases matched) ?_
      rintro ⟨rest, rfl, _⟩
      rw [CScript.getOp_plain opcode2 above] at found
      cases found
  | some op =>
      obtain ⟨opcode1, vch1, rest1⟩ := op
      dsimp only
      rw [if_neg no_keys, matchOp, if_neg no_key, if_neg no_hash, if_neg no_integer]
      by_cases same : opcode1 = opcode2
      · subst same
        obtain ⟨tail, rfl⟩ := CScript.getOp_head pc1 rest1 opcode1 vch1 found
        rw [CScript.getOp_plain opcode1 above] at found
        cases found
        rw [if_neg (fun differ => differ.elim (fun no => no rfl) fun no => no rfl), Option.bind_some]
        constructor
        · exact fun matched => ⟨rest1, rfl, matched⟩
        · rintro ⟨rest, same, matched⟩
          cases same
          exact matched
      · rw [if_pos (Or.inl same)]
        refine iff_of_false (fun matched => by cases matched) ?_
        rintro ⟨rest, rfl, _⟩
        rw [CScript.getOp_plain opcode2 above] at found
        cases found
        exact same rfl

theorem matchTemplate_hash :
    matchTemplate (fuel + 1) pc1 (OP_PUBKEYHASH :: pc2) vSolutionsRet = some result ↔
      ∃ opcode1 vch1 rest, CScript.getOp pc1 = some (opcode1, vch1, rest) ∧ vch1.length = 20 ∧
        matchTemplate fuel rest pc2 (vSolutionsRet ++ [vch1]) = some result := by
  rw [matchTemplate, if_neg (fun both => List.cons_ne_nil _ _ both.2),
    CScript.getOp_plain OP_PUBKEYHASH (by decide)]
  cases found : CScript.getOp pc1 with
  | none =>
      refine iff_of_false (fun matched => by cases matched) ?_
      rintro ⟨_, _, _, same, _⟩
      cases same
  | some op =>
      obtain ⟨opcode1, vch1, rest1⟩ := op
      dsimp only
      rw [if_neg (by decide), matchOp, if_neg (by decide), if_pos rfl]
      by_cases length : vch1.length = 20
      · rw [if_neg (not_not.mpr length), Option.bind_some]
        constructor
        · exact fun matched => ⟨opcode1, vch1, rest1, rfl, length, matched⟩
        · rintro ⟨_, _, _, same, _, matched⟩
          cases same
          exact matched
      · rw [if_pos length]
        refine iff_of_false (fun matched => by cases matched) ?_
        rintro ⟨_, _, _, same, long, _⟩
        cases same
        exact length long

theorem matchTemplate_pubkeyhash (script : CScript) :
    matchTemplate 6 script [OP_DUP, OP_HASH160, OP_PUBKEYHASH, OP_EQUALVERIFY, OP_CHECKSIG] [] =
        some result ↔
      ∃ opcode1 vch1 tail, script = OP_DUP :: OP_HASH160 :: tail ∧
        CScript.getOp tail = some (opcode1, vch1, [OP_EQUALVERIFY, OP_CHECKSIG]) ∧
        vch1.length = 20 ∧ [vch1] = result := by
  simp only [matchTemplate_ordinary _ _ _ _ _ OP_DUP (by decide),
    matchTemplate_ordinary _ _ _ _ _ OP_HASH160 (by decide), matchTemplate_hash,
    matchTemplate_ordinary _ _ _ _ _ OP_EQUALVERIFY (by decide),
    matchTemplate_ordinary _ _ _ _ _ OP_CHECKSIG (by decide), matchTemplate_end, List.nil_append]
  constructor
  · rintro ⟨_, rfl, tail, rfl, opcode1, vch1, _, found, length, _, rfl, _, rfl, rfl, same⟩
    exact ⟨opcode1, vch1, tail, rfl, found, length, same⟩
  · rintro ⟨opcode1, vch1, tail, rfl, found, length, same⟩
    exact ⟨_, rfl, tail, rfl, opcode1, vch1, _, found, length, _, rfl, _, rfl, rfl, same⟩

end templates

section classification

variable (script : CScript) (vSolutionsRet vSolutions : List Valtype)

theorem scanTemplates_cases (result : Bool × TxnOutType × List Valtype)
    (scanned : scanTemplates script mTemplates = result) :
    result.2.1 = .pubkey ∨
    (matchTemplate 6 script [OP_DUP, OP_HASH160, OP_PUBKEYHASH, OP_EQUALVERIFY, OP_CHECKSIG] [] =
      some result.2.2 ∧ result.2.1 = .pubkeyhash) ∨
    result.2.1 = .multisig ∨ result.2.1 = .nonstandard := by
  subst scanned
  rw [mTemplates, scanTemplates]
  cases matchTemplate ([OP_PUBKEY, OP_CHECKSIG].length + 1) script [OP_PUBKEY, OP_CHECKSIG] [] with
  | some _ => exact Or.inl rfl
  | none =>
      refine Or.inr ?_
      dsimp only
      rw [scanTemplates]
      cases matchTemplate _ script
          [OP_DUP, OP_HASH160, OP_PUBKEYHASH, OP_EQUALVERIFY, OP_CHECKSIG] [] with
      | some solutions => exact Or.inl ⟨rfl, rfl⟩
      | none =>
          refine Or.inr ?_
          dsimp only
          rw [scanTemplates]
          cases matchTemplate _ script
              [OP_SMALLINTEGER, OP_PUBKEYS, OP_SMALLINTEGER, OP_CHECKMULTISIG] [] with
          | some _ => exact Or.inl rfl
          | none => exact Or.inr rfl

theorem solver_pubkeyhash
    (solved : solver script vSolutionsRet = (true, .pubkeyhash, vSolutions)) :
    ∃ opcode1 vch1 tail, script = OP_DUP :: OP_HASH160 :: tail ∧
      CScript.getOp tail = some (opcode1, vch1, [OP_EQUALVERIFY, OP_CHECKSIG]) ∧
      vch1.length = 20 ∧ [vch1] = vSolutions := by
  rw [← matchTemplate_pubkeyhash]
  rw [solver] at solved
  split at solved
  · cases solved
  · split at solved
    · cases solved
    · rcases scanTemplates_cases script _ solved with key | ⟨matched, _⟩ | multi | other
      · cases key
      · exact matched
      · cases multi
      · cases other

theorem solver_of_pubkeyhash (opcode1 : UInt8) (vch1 : Valtype) (tail : CScript)
    (found : CScript.getOp tail = some (opcode1, vch1, [OP_EQUALVERIFY, OP_CHECKSIG]))
    (length : vch1.length = 20) :
    solver (OP_DUP :: OP_HASH160 :: tail) vSolutionsRet = (true, .pubkeyhash, [vch1]) := by
  have matched := (matchTemplate_pubkeyhash [vch1] (OP_DUP :: OP_HASH160 :: tail)).mpr
    ⟨opcode1, vch1, tail, rfl, found, length, rfl⟩
  have no_script : CScript.isPayToScriptHash (OP_DUP :: OP_HASH160 :: tail) = false := by
    have other : ((OP_DUP :: OP_HASH160 :: tail)[0]? == some OP_HASH160) = false := rfl
    rw [CScript.isPayToScriptHash, other, Bool.and_false, Bool.false_and, Bool.false_and]
  have no_data : isNullData (OP_DUP :: OP_HASH160 :: tail) = false := rfl
  have no_key : matchTemplate ([OP_PUBKEY, OP_CHECKSIG].length + 1)
      (OP_DUP :: OP_HASH160 :: tail) [OP_PUBKEY, OP_CHECKSIG] [] = none := rfl
  rw [solver, no_script, no_data, if_neg Bool.false_ne_true, if_neg Bool.false_ne_true, mTemplates,
    scanTemplates, no_key]
  dsimp only
  rw [scanTemplates, show [OP_DUP, OP_HASH160, OP_PUBKEYHASH, OP_EQUALVERIFY, OP_CHECKSIG].length + 1
    = 6 from rfl, matched]
  rfl

theorem isPayToScriptHash_iff :
    script.isPayToScriptHash = true ↔
      ∃ hash : Valtype, hash.length = 20 ∧ script = OP_HASH160 :: 20 :: (hash ++ [OP_EQUAL]) := by
  simp only [CScript.isPayToScriptHash, Bool.and_eq_true, beq_iff_eq]
  constructor
  · rintro ⟨⟨⟨length, first⟩, second⟩, last⟩
    rcases script with _ | ⟨a, _ | ⟨b, rest⟩⟩
    · cases first
    · cases second
    · cases first
      cases second
      simp only [List.length_cons] at length
      refine ⟨rest.take 20, by rw [List.length_take]; omega, ?_⟩
      have final : rest.drop 20 = [OP_EQUAL] := by
        rw [List.drop_eq_getElem_cons (by omega), List.drop_eq_nil_of_le (by omega)]
        have same : rest[20]? = some OP_EQUAL := last
        rw [List.getElem?_eq_getElem (by omega), Option.some_inj] at same
        rw [same]
      rw [← final, List.take_append_drop]
  · rintro ⟨hash, length, rfl⟩
    refine ⟨⟨⟨?_, rfl⟩, rfl⟩, ?_⟩
    · simp only [List.length_cons, List.length_append, List.length_nil, length]
    · rw [List.getElem?_cons_succ, List.getElem?_cons_succ, List.getElem?_append_right (by omega),
        length]
      rfl

theorem solver_scripthash (hash : Valtype) (length : hash.length = 20) :
    solver (OP_HASH160 :: 20 :: (hash ++ [OP_EQUAL])) vSolutionsRet =
      (true, .scripthash, vSolutionsRet ++ [hash]) := by
  have p2sh := (isPayToScriptHash_iff _).mpr ⟨hash, length, rfl⟩
  rw [solver, if_pos p2sh]
  have middle : ((OP_HASH160 :: 20 :: (hash ++ [OP_EQUAL])).drop 2).take 20 = hash := by
    show (hash ++ [OP_EQUAL]).take 20 = hash
    rw [← length, List.take_left]
  rw [middle]

theorem solver_scripthash_inv
    (solved : solver script vSolutionsRet = (true, .scripthash, vSolutions)) :
    script.isPayToScriptHash = true := by
  by_contra other
  rw [solver, if_neg other] at solved
  split at solved
  · cases solved
  · rcases scanTemplates_cases script _ solved with key | ⟨_, hash⟩ | multi | other
    · cases key
    · cases hash
    · cases multi
    · cases other

end classification

section multisig

theorem encodeOP_N_some (n : Nat) (low : 1 ≤ n) (high : n ≤ 16) :
    ∃ opcode, CScript.encodeOP_N n = some opcode ∧ CScript.decodeOP_N opcode = some n ∧
      OP_1 ≤ opcode ∧ opcode ≤ OP_16 := by
  have all : ∀ n : Fin 17, 1 ≤ n.val →
      CScript.encodeOP_N n.val = some (UInt8.ofNat (0x50 + n.val)) ∧
      CScript.decodeOP_N (UInt8.ofNat (0x50 + n.val)) = some n.val ∧
      OP_1 ≤ UInt8.ofNat (0x50 + n.val) ∧ UInt8.ofNat (0x50 + n.val) ≤ OP_16 := by
    decide
  exact ⟨_, all ⟨n, by omega⟩ low⟩

theorem small_plain (opcode : UInt8) (low : OP_1 ≤ opcode) : OP_PUSHDATA4 < opcode :=
  UInt8.lt_of_lt_of_le (by decide) low

theorem pushData_key (key : Valtype) (size : isKeySize key = true) :
    (CScript.pushData key).length ≤ 66 := by
  simp only [isKeySize, Bool.and_eq_true, decide_eq_true_eq] at size
  rw [CScript.pushData, if_pos (by omega), List.length_cons]
  omega

theorem pushes_length (keys : List Valtype) (sizes : ∀ key ∈ keys, isKeySize key = true) :
    (keys.flatMap CScript.pushData).length ≤ 66 * keys.length := by
  induction keys with
  | nil => exact Nat.le_refl 0
  | cons key keys ih =>
      have first := pushData_key key (sizes key List.mem_cons_self)
      have others := ih fun other mem => sizes other (List.mem_cons_of_mem _ mem)
      rw [List.flatMap_cons, List.length_append, List.length_cons]
      omega

theorem length_le_pushes (keys : List Valtype) :
    keys.length ≤ (keys.flatMap CScript.pushData).length := by
  induction keys with
  | nil => exact Nat.le_refl 0
  | cons key keys ih =>
      have some_byte := CScript.pushData_length key
      rw [List.flatMap_cons, List.length_append, List.length_cons]
      omega

variable (count : UInt8) (keys : List Valtype)

theorem getOp_key (key : Valtype) (size : isKeySize key = true) (few : keys.length ≤ 16)
    (sizes : ∀ key ∈ keys, isKeySize key = true) :
    CScript.getOp (CScript.pushData key ++ (keys.flatMap CScript.pushData ++
      [count, OP_CHECKMULTISIG])) =
      some (CScript.pushOpcode key, key,
        keys.flatMap CScript.pushData ++ [count, OP_CHECKMULTISIG]) := by
  have long := pushes_length keys sizes
  simp only [isKeySize, Bool.and_eq_true, decide_eq_true_eq] at size
  rw [CScript.getOp_pushData key _ (by omega), if_neg]
  rw [List.length_append, List.length_cons, List.length_cons, List.length_nil]
  omega

theorem readKeys_keys (fuel : Nat) (opcode1 : UInt8) (key : Valtype) (vSolutionsRet : List Valtype)
    (plain : OP_PUSHDATA4 < count) (size : isKeySize key = true) (few : keys.length ≤ 16)
    (sizes : ∀ key ∈ keys, isKeySize key = true) (enough : keys.length + 1 < fuel) :
    readKeys fuel ⟨opcode1, key, keys.flatMap CScript.pushData ++ [count, OP_CHECKMULTISIG],
      vSolutionsRet⟩ = ⟨count, [], [OP_CHECKMULTISIG], vSolutionsRet ++ key :: keys⟩ := by
  induction keys generalizing fuel opcode1 key vSolutionsRet with
  | nil =>
      obtain ⟨fuel, rfl⟩ : ∃ f, fuel = f + 1 + 1 := ⟨fuel - 2, by
        rw [List.length_nil] at enough
        omega⟩
      rw [readKeys, if_pos size, List.flatMap_nil, List.nil_append, CScript.getOp_plain count plain]
      dsimp only
      rw [readKeys]
      exact if_neg Bool.false_ne_true
  | cons next keys ih =>
      obtain ⟨fuel, rfl⟩ : ∃ f, fuel = f + 1 := ⟨fuel - 1, by omega⟩
      rw [List.length_cons] at few enough
      have others : ∀ other ∈ keys, isKeySize other = true :=
        fun other mem => sizes other (List.mem_cons_of_mem _ mem)
      have own := sizes next List.mem_cons_self
      rw [readKeys, if_pos size, List.flatMap_cons, List.append_assoc,
        getOp_key count keys next own (by omega) others]
      dsimp only
      rw [ih fuel _ next _ own (by omega) others (by omega), List.append_assoc]
      rfl

theorem matchTemplate_multisig (required : UInt8) (m n : Nat) (key : Valtype)
    (decodeM : CScript.decodeOP_N required = some m) (lowM : OP_1 ≤ required) (highM : required ≤ OP_16)
    (decodeN : CScript.decodeOP_N count = some n) (lowN : OP_1 ≤ count) (highN : count ≤ OP_16)
    (few : keys.length ≤ 16) (sizes : ∀ other ∈ key :: keys, isKeySize other = true) :
    matchTemplate 5 (required :: ((key :: keys).flatMap CScript.pushData ++ [count, OP_CHECKMULTISIG]))
      [OP_SMALLINTEGER, OP_PUBKEYS, OP_SMALLINTEGER, OP_CHECKMULTISIG] [] =
      some ([UInt8.ofNat m] :: (key :: keys ++ [[UInt8.ofNat n]])) := by
  have own := sizes key List.mem_cons_self
  have others : ∀ other ∈ keys, isKeySize other = true :=
    fun other mem => sizes other (List.mem_cons_of_mem _ mem)
  have plainN := small_plain count lowN
  have small (opcode : UInt8) (k : Nat) (vSolutionsRet : List Valtype) (pc1 : CScript)
      (decoded : CScript.decodeOP_N opcode = some k) (low : OP_1 ≤ opcode) (high : opcode ≤ OP_16) :
      matchOp ⟨opcode, [], pc1, vSolutionsRet⟩ OP_SMALLINTEGER [] =
        some (vSolutionsRet ++ [[UInt8.ofNat k]]) := by
    rw [matchOp, if_neg (by decide), if_neg (by decide), if_pos rfl, if_pos (Or.inr ⟨low, high⟩),
      decoded]
    rfl
  rw [matchTemplate, if_neg (fun both => List.cons_ne_nil _ _ both.1),
    CScript.getOp_plain required (small_plain required lowM),
    CScript.getOp_plain OP_SMALLINTEGER (by decide)]
  dsimp only
  rw [if_neg (by decide), small required m [] _ decodeM lowM highM, Option.bind_some, matchTemplate,
    if_neg (fun both => List.cons_ne_nil _ _ both.2), List.flatMap_cons, List.append_assoc,
    getOp_key count keys key own few others, CScript.getOp_plain OP_PUBKEYS (by decide)]
  dsimp only
  rw [if_pos rfl, readKeys_keys count keys _ _ key _ plainN own few others ?_,
    CScript.getOp_plain OP_SMALLINTEGER (by decide)]
  · dsimp only
    rw [small count n _ _ decodeN lowN highN, Option.bind_some]
    simp only [List.nil_append, List.cons_append]
    rfl
  · have long := length_le_pushes keys
    rw [List.length_append, List.length_cons]
    omega

theorem checkMultisig_sound (m : Nat) (low : 1 ≤ m) (fewer : m ≤ keys.length)
    (few : keys.length ≤ 16) :
    checkMultisig ([UInt8.ofNat m] :: (keys ++ [[UInt8.ofNat keys.length]])) = true := by
  have valueM : (UInt8.ofNat m).toNat = m := by
    rw [UInt8.toNat_ofNat']
    omega
  have valueN : (UInt8.ofNat keys.length).toNat = keys.length := by
    rw [UInt8.toNat_ofNat']
    omega
  have last : ([UInt8.ofNat m] :: (keys ++ [[UInt8.ofNat keys.length]])).getLastD [] =
      [UInt8.ofNat keys.length] := by
    rw [← List.cons_append, List.getLastD_concat]
  have size : ([UInt8.ofNat m] :: (keys ++ [[UInt8.ofNat keys.length]])).length - 2 =
      keys.length := by
    rw [List.length_cons, List.length_append]
    rfl
  have lowM : ¬ UInt8.ofNat m < 1 := by
    rw [UInt8.lt_iff_toNat_lt, valueM, show (1 : UInt8).toNat = 1 from rfl]
    omega
  have lowN : ¬ UInt8.ofNat keys.length < 1 := by
    rw [UInt8.lt_iff_toNat_lt, valueN, show (1 : UInt8).toNat = 1 from rfl]
    omega
  have order : ¬ UInt8.ofNat keys.length < UInt8.ofNat m := by
    rw [UInt8.lt_iff_toNat_lt, valueN, valueM]
    omega
  rw [checkMultisig, last, size]
  simp only [List.headD_cons, List.getD_cons_zero, lowM, lowN, order, valueN, decide_false,
    Bool.or_self, bne_self_eq_false, Bool.not_false]

theorem solver_multisig (m : Nat) (vSolutionsRet : List Valtype) (low : 1 ≤ m)
    (fewer : m ≤ keys.length) (few : keys.length ≤ 16)
    (sizes : ∀ key ∈ keys, isKeySize key = true) :
    ∃ script, getScriptForMultisig m keys = some script ∧
      solver script vSolutionsRet =
        (true, .multisig, [UInt8.ofNat m] :: (keys ++ [[UInt8.ofNat keys.length]])) := by
  obtain ⟨required, encodeM, decodeM, lowM, highM⟩ := encodeOP_N_some m low (by omega)
  obtain ⟨count, encodeN, decodeN, lowN, highN⟩ :=
    encodeOP_N_some keys.length (by omega) few
  cases keys with
  | nil =>
      rw [List.length_nil] at fewer
      omega
  | cons key keys =>
      have matched := matchTemplate_multisig count keys required m (key :: keys).length key decodeM
        lowM highM decodeN lowN highN (by rw [List.length_cons] at few; omega) sizes
      have checked := checkMultisig_sound (key :: keys) m low fewer few
      generalize tail_eq :
        (key :: keys).flatMap CScript.pushData ++ [count, OP_CHECKMULTISIG] = tail at matched
      refine ⟨required :: tail, ?_, ?_⟩
      · rw [getScriptForMultisig, encodeM, encodeN, ← tail_eq]
        rfl
      · have first (other : UInt8) (above : ¬ other ≤ OP_16) : required ≠ other := by
          rintro rfl
          exact above highM
        have no_script : CScript.isPayToScriptHash (required :: tail) = false := by
          have other : ((required :: tail)[0]? == some OP_HASH160) = false :=
            beq_eq_false_iff_ne.mpr fun same => first _ (by decide) (Option.some_inj.mp same)
          rw [CScript.isPayToScriptHash, other, Bool.and_false, Bool.false_and, Bool.false_and]
        have no_data : isNullData (required :: tail) = false := by
          have other : (required == OP_RETURN) = false :=
            beq_eq_false_iff_ne.mpr (first _ (by decide))
          rw [isNullData, other, Bool.false_and]
        have plain := small_plain required lowM
        have no_key : matchTemplate ([OP_PUBKEY, OP_CHECKSIG].length + 1) (required :: tail)
            [OP_PUBKEY, OP_CHECKSIG] [] = none := by
          rw [matchTemplate, if_neg (fun both => List.cons_ne_nil _ _ both.1),
            CScript.getOp_plain required plain]
          rfl
        have no_hash : matchTemplate 6 (required :: tail)
            [OP_DUP, OP_HASH160, OP_PUBKEYHASH, OP_EQUALVERIFY, OP_CHECKSIG] [] = none := by
          refine Option.eq_none_iff_forall_ne_some.mpr fun result found => ?_
          obtain ⟨_, _, _, same, _⟩ := (matchTemplate_pubkeyhash result _).mp found
          exact first OP_DUP (by decide) (List.cons.inj same).1
        rw [solver, no_script, no_data, if_neg Bool.false_ne_true, if_neg Bool.false_ne_true,
          mTemplates, scanTemplates, no_key]
        dsimp only
        rw [scanTemplates, show [OP_DUP, OP_HASH160, OP_PUBKEYHASH, OP_EQUALVERIFY,
          OP_CHECKSIG].length + 1 = 6 from rfl, no_hash]
        dsimp only
        rw [scanTemplates, show [OP_SMALLINTEGER, OP_PUBKEYS, OP_SMALLINTEGER,
          OP_CHECKMULTISIG].length + 1 = 5 from rfl, matched]
        dsimp only
        rw [if_pos rfl, checked]

end multisig

section destinations

variable [ScriptCrypto]

theorem extractDestination_keyID (id : BitVec 160) :
    extractDestination (getScriptForDestination (.keyID id)) = some (.keyID id) := by
  have length := toByteVector_length id
  have found := CScript.getOp_pushData (toByteVector id) [OP_EQUALVERIFY, OP_CHECKSIG] (by omega)
  rw [length, if_neg (by decide)] at found
  rw [extractDestination, getScriptForDestination, scriptWithPush, List.cons_append,
    List.cons_append, List.nil_append, solver_of_pubkeyhash [] _ _ _ found length]
  show some (CTxDestination.keyID (uint160 (toByteVector id))) = _
  rw [uint160_toByteVector]

theorem extractDestination_scriptID (id : BitVec 160) :
    extractDestination (getScriptForDestination (.scriptID id)) = some (.scriptID id) := by
  have length := toByteVector_length id
  have direct : CScript.pushData (toByteVector id) = 20 :: toByteVector id := by
    rw [CScript.pushData, length]
    rfl
  rw [extractDestination, getScriptForDestination, scriptWithPush, direct, List.cons_append,
    List.nil_append, List.cons_append, solver_scripthash [] _ length]
  show some (CTxDestination.scriptID (uint160 (toByteVector id))) = _
  rw [uint160_toByteVector]

def pushOpcodes : List UInt8 := [20, OP_PUSHDATA1, OP_PUSHDATA2, OP_PUSHDATA4]

omit [ScriptCrypto] in
theorem pushOpcode_of_twenty (opcode : UInt8) (data : Valtype) (push : opcode ≤ OP_PUSHDATA4)
    (direct : opcode < OP_PUSHDATA1 → data.length = opcode.toNat) (length : data.length = 20) :
    opcode ∈ pushOpcodes := by
  by_cases low : opcode < OP_PUSHDATA1
  · have value := direct low
    rw [length] at value
    have same : opcode = 20 := UInt8.toNat_inj.mp value.symm
    rw [same]
    exact List.mem_cons_self
  · have above := UInt8.not_lt.mp low
    rw [UInt8.le_iff_toNat_le] at above push
    simp only [pushOpcodes, List.mem_cons, List.not_mem_nil, or_false, ← UInt8.toNat_inj]
    simp only [OP_PUSHDATA1, OP_PUSHDATA2, OP_PUSHDATA4, UInt8.reduceToNat] at *
    omega

theorem extractDestination_pubkeyhash (script : CScript) (vSolutionsRet vSolutions : List Valtype)
    (solved : solver script vSolutionsRet = (true, .pubkeyhash, vSolutions)) :
    ∃ dest, extractDestination script = some dest ∧
      ∃ opcode ∈ pushOpcodes, script = scriptWithPush (pushWith opcode) dest := by
  obtain ⟨opcode1, vch1, tail, rfl, found, length, _⟩ :=
    solver_pubkeyhash script vSolutionsRet vSolutions solved
  have again := solver_of_pubkeyhash [] opcode1 vch1 tail found length
  have push : opcode1 ≤ OP_PUSHDATA4 := by
    by_contra above
    obtain ⟨rest, rfl⟩ := CScript.getOp_head tail _ opcode1 vch1 found
    rw [CScript.getOp_plain opcode1 (UInt8.not_le.mp above)] at found
    cases found
    cases length
  obtain ⟨form, direct⟩ := getOp_push_inv tail _ opcode1 vch1 found push
  refine ⟨.keyID (uint160 vch1), ?_, opcode1, pushOpcode_of_twenty opcode1 vch1 push direct length, ?_⟩
  · rw [extractDestination, again]
    rfl
  · rw [form, scriptWithPush, toByteVector_uint160 vch1 length]
    rfl

theorem extractDestination_scripthash (script : CScript) (vSolutionsRet vSolutions : List Valtype)
    (solved : solver script vSolutionsRet = (true, .scripthash, vSolutions)) :
    ∃ dest, extractDestination script = some dest ∧ script = getScriptForDestination dest := by
  obtain ⟨hash, length, rfl⟩ :=
    (isPayToScriptHash_iff script).mp (solver_scripthash_inv script vSolutionsRet vSolutions solved)
  refine ⟨.scriptID (uint160 hash), ?_, ?_⟩
  · rw [extractDestination, solver_scripthash [] hash length]
    rfl
  · rw [getScriptForDestination, scriptWithPush, toByteVector_uint160 hash length, CScript.pushData,
      length]
    rfl

/-- A destination is read back from its script, a multisig script is solved, and a script with a
destination is that of the destination but for the opcode that pushes the key's hash. -/
theorem standard_roundTrip :
    (∀ id, extractDestination (getScriptForDestination (.keyID id)) = some (.keyID id)) ∧
    (∀ id, extractDestination (getScriptForDestination (.scriptID id)) = some (.scriptID id)) ∧
    (∀ (m : Nat) (keys vSolutionsRet : List Valtype), 1 ≤ m → m ≤ keys.length → keys.length ≤ 16 →
      (∀ key ∈ keys, 33 ≤ key.length ∧ key.length ≤ 65) →
      ∃ script, getScriptForMultisig m keys = some script ∧
        solver script vSolutionsRet =
          (true, .multisig, [UInt8.ofNat m] :: (keys ++ [[UInt8.ofNat keys.length]]))) ∧
    (∀ (script : CScript) (vSolutionsRet vSolutions : List Valtype),
      solver script vSolutionsRet = (true, .pubkeyhash, vSolutions) →
      ∃ dest, extractDestination script = some dest ∧
        ∃ opcode ∈ pushOpcodes, script = scriptWithPush (pushWith opcode) dest) ∧
    ∀ (script : CScript) (vSolutionsRet vSolutions : List Valtype),
      solver script vSolutionsRet = (true, .scripthash, vSolutions) →
      ∃ dest, extractDestination script = some dest ∧ script = getScriptForDestination dest := by
  refine ⟨extractDestination_keyID, extractDestination_scriptID, ?_,
    extractDestination_pubkeyhash, extractDestination_scripthash⟩
  intro m keys vSolutionsRet low fewer few sizes
  refine solver_multisig keys m vSolutionsRet low fewer few fun key mem => ?_
  rw [isKeySize, decide_eq_true (sizes key mem).1, decide_eq_true (sizes key mem).2]
  rfl

end destinations

end CryptoYen
