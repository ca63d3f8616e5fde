import CryptoYen.Library.Bytes
import CryptoYen.Script.Encoding

set_option autoImplicit false

namespace CryptoYen

theorem littleEndianValue_append (low high : List UInt8) :
    littleEndianValue (low ++ high) =
      littleEndianValue low + 256 ^ low.length * littleEndianValue high := by
  induction low with
  | nil => simp [littleEndianValue]
  | cons byte rest ih =>
      rw [List.cons_append, littleEndianValue, littleEndianValue, ih, List.length_cons,
        Nat.pow_succ, Nat.mul_comm (256 ^ rest.length) 256, Nat.mul_add, Nat.mul_assoc,
        Nat.add_assoc]

theorem littleEndianValue_concat (low : List UInt8) (top : UInt8) :
    littleEndianValue (low ++ [top]) =
      littleEndianValue low + 256 ^ low.length * top.toNat := by
  rw [littleEndianValue_append, littleEndianValue, littleEndianValue, Nat.mul_zero, Nat.add_zero]

theorem absBytes_nonzero (width n : Nat) (positive : 0 < n) (bound : n < 256 ^ width) :
    ∃ low top, absBytes width n = low ++ [top] ∧ 0 < top.toNat ∧ low.length < width ∧
      n = littleEndianValue low + 256 ^ low.length * top.toNat := by
  induction width generalizing n with
  | zero => omega
  | succ width ih =>
      have digit : (UInt8.ofNat (n % 256)).toNat = n % 256 := by
        rw [UInt8.toNat_ofNat']
        omega
      rw [absBytes, if_neg (by omega)]
      by_cases last : n / 256 = 0
      · refine ⟨[], UInt8.ofNat (n % 256), ?_, ?_, Nat.succ_pos _, ?_⟩
        · rw [last]
          cases width <;> rfl
        · rw [digit]
          omega
        · rw [digit, littleEndianValue, List.length_nil, Nat.pow_zero]
          omega
      · have below : n / 256 < 256 ^ width := by
          rw [Nat.div_lt_iff_lt_mul (by decide), ← Nat.pow_succ]
          exact bound
        obtain ⟨low, top, bytes, nonzero, short, value⟩ := ih (n / 256) (by omega) below
        refine ⟨UInt8.ofNat (n % 256) :: low, top, by rw [bytes, List.cons_append], nonzero,
          Nat.succ_lt_succ short, ?_⟩
        rw [littleEndianValue, digit, List.length_cons, Nat.pow_succ,
          Nat.mul_comm (256 ^ low.length), Nat.mul_assoc]
        omega

theorem absBytes_back (width : Nat) (low : List UInt8) (top : UInt8) (nonzero : 0 < top.toNat)
    (short : low.length < width) :
    absBytes width (littleEndianValue low + 256 ^ low.length * top.toNat) = low ++ [top] := by
  induction width generalizing low with
  | zero => omega
  | succ width ih =>
      have small := top.toNat_lt
      rw [absBytes]
      cases low with
      | nil =>
          rw [littleEndianValue, List.length_nil, Nat.pow_zero, Nat.one_mul, Nat.zero_add,
            if_neg (by omega), Nat.mod_eq_of_lt small, UInt8.ofNat_toNat, Nat.div_eq_of_lt small]
          cases width <;> rfl
      | cons byte rest =>
          have bound := byte.toNat_lt
          have whole : littleEndianValue (byte :: rest) +
              256 ^ (byte :: rest).length * top.toNat =
              byte.toNat + 256 * (littleEndianValue rest + 256 ^ rest.length * top.toNat) := by
            rw [littleEndianValue, List.length_cons, Nat.pow_succ, Nat.mul_comm (256 ^ rest.length),
              Nat.mul_assoc, Nat.mul_add, Nat.add_assoc]
          have power := Nat.pow_pos (n := rest.length) (show 0 < 256 by decide)
          have positive := Nat.mul_pos power nonzero
          have later : (byte.toNat + 256 *
              (littleEndianValue rest + 256 ^ rest.length * top.toNat)) / 256 =
              littleEndianValue rest + 256 ^ rest.length * top.toNat := by omega
          have first : (byte.toNat + 256 *
              (littleEndianValue rest + 256 ^ rest.length * top.toNat)) % 256 = byte.toNat := by
            omega
          rw [whole, if_neg (by omega), later, first, UInt8.ofNat_toNat,
            ih rest (Nat.lt_of_succ_lt_succ short), List.cons_append]

namespace CScriptNum

theorem setVch_concat (low : Valtype) (back : UInt8) :
    setVch (low ++ [back]) =
      if 128 ≤ back.toNat then
        -((littleEndianValue low + 256 ^ low.length * (back.toNat % 128) : Nat) : Int)
      else ((littleEndianValue low + 256 ^ low.length * back.toNat : Nat) : Int) := by
  have below := littleEndianValue_lt low
  have bound := back.toNat_lt
  rw [setVch, List.getLast?_concat]
  simp only [Bytes.signBit, littleEndianValue_concat, List.length_append, List.length_singleton,
    Nat.add_sub_cancel]
  split
  next marked =>
    generalize 256 ^ low.length = power at below ⊢
    have room := Nat.mul_le_mul_left power (show back.toNat % 128 ≤ 127 by omega)
    have whole : littleEndianValue low + power * back.toNat =
        littleEndianValue low + power * (back.toNat % 128) + 0x80 * power := by
      conv => lhs; rw [show back.toNat = back.toNat % 128 + 128 by omega]
      rw [Nat.mul_add]
      omega
    rw [whole, Nat.add_mod_right, Nat.mod_eq_of_lt (by omega)]
  next => rfl

theorem isMinimal_concat (low : Valtype) (back : UInt8) :
    isMinimal (low ++ [back]) = true ↔
      back.toNat % 128 ≠ 0 ∨ ∃ first second, low = first ++ [second] ∧ 128 ≤ second.toNat := by
  have magnitude : back &&& 0x7f ≠ 0 ↔ back.toNat % 128 ≠ 0 := by
    rw [ne_eq, ← UInt8.toNat_inj, Bytes.magnitude]
    rfl
  rcases List.eq_nil_or_concat low with rfl | ⟨first, second, rfl⟩
  · simp [isMinimal, magnitude]
  · rw [List.concat_eq_append, isMinimal, List.reverse_append, List.reverse_append,
      List.reverse_singleton, List.reverse_singleton, List.singleton_append, List.singleton_append]
    simp only [Bool.or_eq_true, bne_iff_ne, magnitude, Bytes.signBit]
    refine or_congr_right ⟨fun marked => ⟨first, second, rfl, marked⟩, ?_⟩
    rintro ⟨other, last, same, marked⟩
    obtain ⟨_, only⟩ := List.append_inj' same rfl
    cases only
    exact marked

theorem serialize_concat (n : Int) (low : Valtype) (top : UInt8)
    (bytes : absBytes 8 n.natAbs = low ++ [top]) :
    serialize n =
      if 128 ≤ top.toNat then low ++ [top] ++ [if n < 0 then 0x80 else 0]
      else if n < 0 then low ++ [top ||| 0x80] else low ++ [top] := by
  have high : (0x80 : UInt8) ≤ top ↔ 128 ≤ top.toNat := UInt8.le_iff_toNat_le
  rw [serialize, bytes]
  simp only [List.getLast?_concat, List.dropLast_concat, high]

theorem setVch_serialize (n : Int) (bound : n.natAbs < 256 ^ 8) : setVch (serialize n) = n := by
  by_cases zero : n = 0
  · rw [zero]
    rfl
  · obtain ⟨low, top, bytes, nonzero, short, value⟩ :=
      absBytes_nonzero 8 n.natAbs (by omega) bound
    have free : (UInt8.toNat 0) = 0 := rfl
    have sign : (UInt8.toNat 0x80) = 128 := rfl
    rw [serialize_concat n low top bytes]
    split
    next collides =>
      rw [setVch_concat, littleEndianValue_concat, ← value]
      by_cases negative : n < 0
      · rw [if_pos negative, sign, if_pos (by decide)]
        omega
      · rw [if_neg negative, free, if_neg (by decide)]
        omega
    next fits =>
      split
      next negative =>
        rw [setVch_concat, Bytes.withSign top (by omega), if_pos (by omega), Nat.add_mod_right,
          Nat.mod_eq_of_lt (by omega), ← value]
        omega
      next =>
        rw [setVch_concat, if_neg fits, ← value]
        omega

theorem serialize_minimal (n : Int) (bound : n.natAbs < 256 ^ 8) :
    isMinimal (serialize n) = true := by
  by_cases zero : n = 0
  · rw [zero]
    rfl
  · obtain ⟨low, top, bytes, nonzero, _, _⟩ := absBytes_nonzero 8 n.natAbs (by omega) bound
    rw [serialize_concat n low top bytes]
    split
    next collides =>
      rw [isMinimal_concat]
      exact Or.inr ⟨low, top, rfl, collides⟩
    next =>
      split
      next =>
        rw [isMinimal_concat, Bytes.withSign top (by omega)]
        omega
      next =>
        rw [isMinimal_concat]
        omega

theorem serialize_short (n : Int) (bound : n.natAbs < 2 ^ 63) : (serialize n).length ≤ 8 := by
  by_cases zero : n = 0
  · rw [zero]
    decide
  · obtain ⟨low, top, bytes, _, short, value⟩ :=
      absBytes_nonzero 8 n.natAbs (by omega) (by omega)
    rw [serialize_concat n low top bytes]
    split
    next collides =>
      have fewer : low.length ≠ 7 := fun seven => by
        rw [seven] at value
        omega
      rw [List.length_append, List.length_append, List.length_singleton, List.length_singleton]
      omega
    next =>
      split <;>
      · rw [List.length_append, List.length_singleton]
        omega

theorem serialize_setVch (vch : Valtype) (short : vch.length ≤ 8)
    (minimal : isMinimal vch = true) : serialize (setVch vch) = vch := by
  rcases List.eq_nil_or_concat vch with rfl | ⟨low, back, split⟩
  · rfl
  · rw [List.concat_eq_append] at split
    subst split
    rw [List.length_append, List.length_singleton] at short
    have bound := back.toNat_lt
    have power := Nat.pow_pos (n := low.length) (show 0 < 256 by decide)
    rw [isMinimal_concat] at minimal
    rw [setVch_concat]
    by_cases inside : back.toNat % 128 = 0
    · -- the last byte is the sign alone, and the byte below it needs its top bit
      rcases minimal with nonzero | ⟨first, second, rfl, high⟩
      · exact absurd inside nonzero
      · rw [List.length_append, List.length_singleton] at short
        have bytes := absBytes_back 8 first second (by omega) (by omega)
        rw [← littleEndianValue_concat] at bytes
        have positive : 0 < littleEndianValue (first ++ [second]) := by
          rw [littleEndianValue_concat]
          have part := Nat.mul_pos (Nat.pow_pos (n := first.length) (show 0 < 256 by decide))
            (show 0 < second.toNat by omega)
          omega
        rw [inside, Nat.mul_zero, Nat.add_zero]
        split
        next marked =>
          have sign : back = 0x80 := UInt8.toNat_inj.mp (by
            show back.toNat = 128
            omega)
          rw [serialize_concat _ first second (by rw [Int.natAbs_neg, Int.natAbs_natCast, bytes]),
            if_pos high, if_pos (by omega), sign]
        next plain =>
          have sign : back = 0 := UInt8.toNat_inj.mp (by
            show back.toNat = 0
            omega)
          rw [sign] at *
          rw [show (UInt8.toNat 0) = 0 from rfl, Nat.mul_zero, Nat.add_zero,
            serialize_concat _ first second (by rw [Int.natAbs_natCast, bytes]), if_pos high,
            if_neg (by omega)]
    · split
      next marked =>
        have digit : (UInt8.ofNat (back.toNat % 128)).toNat = back.toNat % 128 := by
          rw [UInt8.toNat_ofNat']
          omega
        have bytes := absBytes_back 8 low (UInt8.ofNat (back.toNat % 128)) (by omega) (by omega)
        rw [digit] at bytes
        have part := Nat.mul_pos power (Nat.pos_of_ne_zero inside)
        have signed : UInt8.ofNat (back.toNat % 128) ||| 0x80 = back := by
          rw [← UInt8.toNat_inj, Bytes.withSign _ (by omega), digit]
          omega
        rw [serialize_concat _ low _ (by rw [Int.natAbs_neg, Int.natAbs_natCast, bytes]),
          if_neg (by omega), if_pos (by omega), signed]
      next plain =>
        have bytes := absBytes_back 8 low back (by omega) (by omega)
        rw [serialize_concat _ low back (by rw [Int.natAbs_natCast, bytes]), if_neg plain,
          if_neg (by omega)]

end CScriptNum

namespace ScriptNum64

def pushBytes : Nat → BitVec 64 → Valtype
  | 0, _ => []
  | fuel + 1, absvalue =>
      if absvalue = 0 then []
      else UInt8.ofBitVec ((absvalue &&& 0xff).setWidth 8) :: pushBytes fuel (absvalue >>> 8)

def serialize (value : BitVec 64) : Valtype :=
  if value = 0 then []
  else
    let neg := value.slt 0
    let absvalue := if neg then -value else value
    let result := pushBytes 8 absvalue
    match result.getLast? with
    | none => []
    | some back =>
        if back &&& 0x80 ≠ 0 then result ++ [if neg then 0x80 else 0]
        else if neg then result.dropLast ++ [back ||| 0x80]
        else result

def orBytes : Nat → BitVec 64 → Valtype → BitVec 64
  | _, result, [] => result
  | i, result, byte :: rest =>
      orBytes (i + 1) (result ||| (byte.toBitVec.setWidth 64 <<< (8 * i))) rest

def setVch (vch : Valtype) : BitVec 64 :=
  match vch.getLast? with
  | none => 0
  | some back =>
      let result := orBytes 0 0 vch
      if back &&& 0x80 ≠ 0 then
        -(result &&& ~~~((0x80 : BitVec 64) <<< (8 * (vch.length - 1))))
      else result

-- The constructor from a vector; none is a scriptnum_error.
def ofVch (vch : Valtype) (fRequireMinimal : Bool) (nMaxNumSize : Nat) : Option (BitVec 64) :=
  if nMaxNumSize < vch.length then none
  else if fRequireMinimal && !CScriptNum.isMinimal vch then none
  else some (setVch vch)

theorem pushBytes_eq (fuel : Nat) (absvalue : BitVec 64) :
    pushBytes fuel absvalue = absBytes fuel absvalue.toNat := by
  induction fuel generalizing absvalue with
  | zero => rfl
  | succ fuel ih =>
      have zero : absvalue = 0 ↔ absvalue.toNat = 0 := by
        rw [BitVec.toNat_eq]
        rfl
      have low : UInt8.ofBitVec ((absvalue &&& 0xff).setWidth 8) =
          UInt8.ofNat (absvalue.toNat % 256) := by
        have mask : (0xff : BitVec 64).toNat = 2 ^ 8 - 1 := rfl
        rw [← UInt8.toNat_inj, UInt8.toNat_ofBitVec, BitVec.toNat_setWidth, BitVec.toNat_and, mask,
          Nat.and_two_pow_sub_one_eq_mod, UInt8.toNat_ofNat']
      rw [pushBytes, absBytes, ih, low, BitVec.toNat_ushiftRight, Nat.shiftRight_eq_div_pow]
      simp only [zero]

theorem absvalue_toNat (value : BitVec 64) :
    (if value.slt 0 then -value else value).toNat = value.toInt.natAbs := by
  have bound := value.isLt
  have zero : (0 : BitVec 64).toInt = 0 := rfl
  rw [BitVec.slt, zero]
  by_cases negative : value.toInt < 0
  · rw [decide_eq_true negative, if_pos rfl, BitVec.toNat_neg]
    rw [BitVec.toInt_eq_toNat_cond] at negative ⊢
    split_ifs at negative ⊢ with low
    · omega
    · omega
  · rw [decide_eq_false negative, if_neg (by decide)]
    rw [BitVec.toInt_eq_toNat_cond] at negative ⊢
    split_ifs at negative ⊢ with low
    · omega
    · omega

theorem serialize_eq (value : BitVec 64) : serialize value = CScriptNum.serialize value.toInt := by
  have zero : (0 : BitVec 64).toInt = 0 := rfl
  have high (back : UInt8) : (0x80 : UInt8) ≤ back ↔ 128 ≤ back.toNat := UInt8.le_iff_toNat_le
  have negative : value.slt 0 = true ↔ value.toInt < 0 := by
    rw [BitVec.slt, zero, decide_eq_true_eq]
  rw [serialize]
  split
  next null =>
    rw [null, zero]
    rfl
  next =>
    dsimp only
    rw [pushBytes_eq, absvalue_toNat, CScriptNum.serialize]
    cases (absBytes 8 value.toInt.natAbs).getLast? with
    | none => rfl
    | some back => simp only [negative, Bytes.signBit, high]

theorem orBytes_toNat (i : Nat) (result : BitVec 64) (bytes : Valtype)
    (below : result.toNat < 256 ^ i) (short : i + bytes.length ≤ 8) :
    (orBytes i result bytes).toNat = result.toNat + 256 ^ i * littleEndianValue bytes := by
  induction bytes generalizing i result with
  | nil => rw [orBytes, littleEndianValue, Nat.mul_zero, Nat.add_zero]
  | cons byte rest ih =>
      rw [List.length_cons] at short
      have bound := byte.toNat_lt
      have power : 256 ^ i = 2 ^ (8 * i) := by rw [Nat.pow_mul]
      have limit : 256 ^ (i + 1) ≤ 256 ^ 8 := Nat.pow_le_pow_right (by decide) (by omega)
      rw [Nat.pow_succ] at limit
      have placed : (byte.toBitVec.setWidth 64 <<< (8 * i)).toNat = 256 ^ i * byte.toNat := by
        have small : byte.toNat * 256 ^ i < 2 ^ 64 := by
          calc byte.toNat * 256 ^ i < 256 * 256 ^ i :=
                Nat.mul_lt_mul_of_pos_right bound (Nat.pow_pos (by decide))
            _ ≤ 2 ^ 64 := by omega
        rw [BitVec.toNat_shiftLeft, BitVec.toNat_setWidth, UInt8.toNat_toBitVec, Nat.shiftLeft_eq,
          ← power, Nat.mod_eq_of_lt (show byte.toNat < 2 ^ 64 by omega), Nat.mod_eq_of_lt small,
          Nat.mul_comm]
      have joined : (result ||| byte.toBitVec.setWidth 64 <<< (8 * i)).toNat =
          result.toNat + 256 ^ i * byte.toNat := by
        rw [power] at below
        rw [BitVec.toNat_or, placed, power, Nat.or_comm, ← Nat.two_pow_add_eq_or_of_lt below,
          Nat.add_comm]
      have inside : result.toNat + 256 ^ i * byte.toNat < 256 ^ (i + 1) := by
        calc result.toNat + 256 ^ i * byte.toNat < 256 ^ i * (byte.toNat + 1) := by
              rw [Nat.mul_succ]
              omega
          _ ≤ 256 ^ (i + 1) := Nat.mul_le_mul_left _ (by omega)
      rw [orBytes, ih (i + 1) _ (by rw [joined]; exact inside) (by omega), joined,
        littleEndianValue, Nat.pow_succ, Nat.mul_add, Nat.mul_assoc, Nat.add_assoc]

theorem unmasked_toNat (result : BitVec 64) (k : Nat) (inside : k < 64)
    (below : result.toNat < 2 ^ (k + 1)) :
    (result &&& ~~~((1 : BitVec 64) <<< k)).toNat = result.toNat % 2 ^ k := by
  apply Nat.eq_of_testBit_eq
  intro i
  rw [Nat.testBit_mod_two_pow, BitVec.testBit_toNat, BitVec.testBit_toNat, BitVec.getLsbD_and,
    BitVec.getLsbD_not, BitVec.getLsbD_shiftLeft]
  by_cases low : i < k
  · simp [low, show i < 64 by omega]
  · by_cases same : i = k
    · subst same
      simp [inside]
    · have clear : result.getLsbD i = false := by
        rw [← BitVec.testBit_toNat]
        apply Nat.testBit_lt_two_pow
        exact Nat.lt_of_lt_of_le below (Nat.pow_le_pow_right (by decide) (by omega))
      rw [clear, Bool.false_and, Bool.and_false]

theorem setVch_eq (vch : Valtype) (short : vch.length ≤ 8) :
    setVch vch = BitVec.ofInt 64 (CScriptNum.setVch vch) := by
  have value := orBytes_toNat 0 0 vch (by decide) (by omega)
  rw [show (0 : BitVec 64).toNat = 0 from rfl, Nat.pow_zero, Nat.one_mul, Nat.zero_add] at value
  have below := littleEndianValue_lt vch
  rw [setVch, CScriptNum.setVch]
  cases last : vch.getLast? with
  | none => rfl
  | some back =>
      have positive : vch.length ≠ 0 := fun empty => by
        rw [List.eq_nil_of_length_eq_zero empty] at last
        cases last
      obtain ⟨k, length⟩ : ∃ k, vch.length = k + 1 := ⟨vch.length - 1, by omega⟩
      dsimp only
      split
      next =>
        have mask : (0x80 : BitVec 64) <<< (8 * (vch.length - 1)) =
            (1 : BitVec 64) <<< (8 * k + 7) := by
          rw [length, Nat.add_sub_cancel, Nat.add_comm, BitVec.shiftLeft_add]
          rfl
        have top : 2 ^ (8 * k + 7) = 0x80 * 256 ^ k := by
          rw [Nat.pow_add, Nat.pow_mul, Nat.mul_comm]
        have limit : 2 ^ (8 * k + 7 + 1) = 256 ^ (k + 1) := by
          rw [Nat.add_assoc, ← Nat.mul_succ, Nat.pow_mul]
        have cleared := unmasked_toNat (orBytes 0 0 vch) (8 * k + 7) (by omega) (by
          rw [value, limit, ← length]
          exact below)
        rw [mask, length, Nat.add_sub_cancel, ← top, ← value, ← cleared, BitVec.ofInt_neg,
          BitVec.ofInt_natCast, BitVec.ofNat_toNat, BitVec.setWidth_eq]
      next =>
        rw [← value, BitVec.ofInt_natCast, BitVec.ofNat_toNat, BitVec.setWidth_eq]

theorem setVch_toInt (vch : Valtype) (short : vch.length ≤ 8) :
    (setVch vch).toInt = CScriptNum.setVch vch := by
  have small : (CScriptNum.setVch vch).natAbs < 2 ^ 63 := by
    rcases List.eq_nil_or_concat vch with rfl | ⟨low, back, split⟩
    · decide
    · rw [List.concat_eq_append] at split
      rw [split, List.length_append, List.length_singleton] at short
      have below := littleEndianValue_lt low
      have limit : 256 ^ low.length ≤ 256 ^ 7 := Nat.pow_le_pow_right (by decide) (by omega)
      have room (digit : Nat) (few : digit ≤ 127) :
          256 ^ low.length * digit ≤ 256 ^ low.length * 127 := Nat.mul_le_mul_left _ few
      rw [split, CScriptNum.setVch_concat]
      split
      next =>
        have part := room (back.toNat % 128) (by omega)
        omega
      next =>
        have part := room back.toNat (by omega)
        omega
  rw [setVch_eq vch short, BitVec.toInt_ofInt, Int.bmod_eq_of_le] <;> omega

theorem natAbs_lt (n : BitVec 64) (least : n ≠ BitVec.intMin 64) : n.toInt.natAbs < 2 ^ 63 := by
  have bounds := BitVec.le_toInt n
  have above := BitVec.toInt_lt (x := n)
  have apart : n.toInt ≠ -2 ^ 63 := fun same => least (BitVec.toInt_inj.mp (by
    rw [same]
    rfl))
  omega

theorem setVch_serialize (n : BitVec 64) (least : n ≠ BitVec.intMin 64) :
    setVch (serialize n) = n := by
  have bound := natAbs_lt n least
  have short := CScriptNum.serialize_short n.toInt bound
  rw [← serialize_eq] at short
  rw [setVch_eq _ short, serialize_eq, CScriptNum.setVch_serialize n.toInt (by omega),
    BitVec.ofInt_toInt]

/-- Numbers and their minimal encodings determine each other. -/
theorem scriptNum_canonical :
    (∀ n : BitVec 64, n ≠ BitVec.intMin 64 → ∀ nMaxNumSize, (serialize n).length ≤ nMaxNumSize →
        ofVch (serialize n) true nMaxNumSize = some n) ∧
      (∀ (vch : Valtype) (nMaxNumSize : Nat) (n : BitVec 64), vch.length ≤ 8 →
        ofVch vch true nMaxNumSize = some n → serialize n = vch) ∧
      (∀ m n : BitVec 64, m ≠ BitVec.intMin 64 → n ≠ BitVec.intMin 64 →
        (serialize m = serialize n ↔ m = n)) := by
  refine ⟨fun n least nMaxNumSize enough => ?_, fun vch nMaxNumSize n few parsed => ?_,
    fun m n least also => ⟨fun same => ?_, congrArg serialize⟩⟩
  · have bound := natAbs_lt n least
    have minimal := CScriptNum.serialize_minimal n.toInt (by omega)
    rw [← serialize_eq] at minimal
    rw [ofVch, if_neg (Nat.not_lt.mpr enough), minimal, Bool.not_true, Bool.and_false,
      if_neg Bool.false_ne_true, setVch_serialize n least]
  · rw [ofVch] at parsed
    split at parsed
    · cases parsed
    · split at parsed
      · cases parsed
      next required =>
        have minimal : CScriptNum.isMinimal vch = true := by simpa using required
        rw [← Option.some.inj parsed, serialize_eq, setVch_toInt vch few,
          CScriptNum.serialize_setVch vch few minimal]
  · rw [← setVch_serialize m least, same, setVch_serialize n also]

example : serialize (-255) = [0xff, 0x80] ∧ ofVch [0xff, 0x80] true 4 = some (-255) ∧
    ofVch [0x7f, 0x80] true 4 = none := by decide

end ScriptNum64

end CryptoYen
