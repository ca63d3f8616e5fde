import Mathlib.Data.List.GetD
import Mathlib.Data.Nat.Size
import Mathlib.Tactic.Ring

set_option autoImplicit false

/-! Unsigned numbers of any width as lists of machine words, the least significant word in front:
the loops of schoolbook arithmetic and what each does to the value. -/

namespace Limbs

variable {w : Nat}

def value : List (BitVec w) → Nat
  | [] => 0
  | limb :: rest => limb.toNat + 2 ^ w * value rest

def ofNat : Nat → Nat → List (BitVec w)
  | 0, _ => []
  | width + 1, n => BitVec.ofNat w n :: ofNat width (n / 2 ^ w)

@[simp] theorem ofNat_length (width n : Nat) :
    (ofNat width n : List (BitVec w)).length = width := by
  induction width generalizing n with
  | zero => rfl
  | succ width ih => simp [ofNat, ih]

theorem value_lt (limbs : List (BitVec w)) : value limbs < 2 ^ (w * limbs.length) := by
  induction limbs with
  | nil => simp [value]
  | cons limb rest ih =>
      have bound := limb.isLt
      rw [List.length_cons, Nat.mul_succ, Nat.add_comm, Nat.pow_add]
      calc limb.toNat + 2 ^ w * value rest < 2 ^ w * (value rest + 1) := by
            rw [Nat.mul_succ]
            omega
        _ ≤ 2 ^ w * 2 ^ (w * rest.length) := Nat.mul_le_mul_left _ ih

theorem value_append (low high : List (BitVec w)) :
    value (low ++ high) = value low + 2 ^ (w * low.length) * value high := by
  induction low with
  | nil => simp [value]
  | cons limb rest ih =>
      rw [List.cons_append, value, ih, value, List.length_cons, Nat.mul_succ, Nat.pow_add]
      ring

theorem value_injective (a b : List (BitVec w)) (width : a.length = b.length)
    (same : value a = value b) : a = b := by
  induction a generalizing b with
  | nil => exact (List.eq_nil_of_length_eq_zero width.symm).symm
  | cons limb rest ih =>
      cases b with
      | nil => cases width
      | cons other others =>
          have low : limb.toNat = other.toNat := by
            have reduced := congrArg (· % 2 ^ w) same
            simpa only [value, Nat.add_mul_mod_self_left, Nat.mod_eq_of_lt limb.isLt,
              Nat.mod_eq_of_lt other.isLt] using reduced
          rw [value, value, low] at same
          have high := Nat.eq_of_mul_eq_mul_left (Nat.two_pow_pos w) (Nat.add_left_cancel same)
          rw [BitVec.eq_of_toNat_eq low, ih others (Nat.succ.inj width) high]

theorem value_ofNat (width n : Nat) :
    value (ofNat width n : List (BitVec w)) = n % 2 ^ (w * width) := by
  induction width generalizing n with
  | zero => simp [ofNat, value, Nat.mod_one]
  | succ width ih =>
      rw [ofNat, value, ih, BitVec.toNat_ofNat, Nat.mul_succ, Nat.add_comm (w * width), Nat.pow_add,
        Nat.mod_mul]

-- Sums and products of words are taken in twice the width; what stays is a word, the rest is
-- carried.
def wide (w n : Nat) : Nat := n % 2 ^ (2 * w)

def digit (n : Nat) : BitVec w := BitVec.ofNat w n

def carried (w n : Nat) : Nat := n / 2 ^ w

theorem wide_of_lt (n : Nat) (fits : n < 2 ^ w * 2 ^ w) : wide w n = n := by
  rw [wide, Nat.two_mul, Nat.pow_add, Nat.mod_eq_of_lt fits]

theorem carried_lt (n : Nat) (fits : n < 2 ^ w * 2 ^ w) : carried w n < 2 ^ w :=
  Nat.div_lt_of_lt_mul fits

theorem product_fits (carry : Nat) (old a b : BitVec w) (small : carry < 2 ^ w) :
    carry + old.toNat + a.toNat * b.toNat < 2 ^ w * 2 ^ w := by
  have left := a.isLt
  have right := b.isLt
  have kept := old.isLt
  obtain ⟨top, full⟩ : ∃ top, 2 ^ w = top + 1 := ⟨2 ^ w - 1, by omega⟩
  have product : a.toNat * b.toNat ≤ top * top := Nat.mul_le_mul (by omega) (by omega)
  have square : 2 ^ w * 2 ^ w = top * top + 2 * top + 1 := by
    rw [full]
    ring
  omega

theorem sum_fits (carry : Nat) (a b : BitVec w) (small : carry < 2 ^ w) :
    carry + a.toNat + b.toNat < 2 ^ w * 2 ^ w := by
  cases w with
  | zero =>
      have left := a.isLt
      have right := b.isLt
      simp only [Nat.pow_zero] at small left right ⊢
      omega
  | succ width =>
      have one : (1 : BitVec (width + 1)).toNat = 1 := by simp
      have fits := product_fits carry a 1 b small
      rwa [one, Nat.one_mul] at fits

theorem cons_mod (n rest width : Nat) :
    (digit n : BitVec w).toNat + 2 ^ w * ((carried w n + rest) % 2 ^ (w * width)) =
      (n + 2 ^ w * rest) % 2 ^ (w * (width + 1)) := by
  rw [Nat.mul_succ, Nat.add_comm (w * width), Nat.pow_add, Nat.mod_mul, digit,
    BitVec.toNat_ofNat, Nat.add_mul_mod_self_left, Nat.add_mul_div_left _ _ (Nat.two_pow_pos w),
    carried]

section sums

def addFrom : Nat → List (BitVec w) → List (BitVec w) → List (BitVec w)
  | carry, a :: as, b :: bs =>
      let n := wide w (carry + a.toNat + b.toNat)
      digit n :: addFrom (carried w n) as bs
  | _, _, _ => []

def add (a b : List (BitVec w)) : List (BitVec w) := addFrom 0 a b

@[simp] theorem addFrom_length (carry : Nat) (a b : List (BitVec w)) (width : a.length = b.length) :
    (addFrom carry a b).length = a.length := by
  induction a generalizing b carry with
  | nil => simp [addFrom]
  | cons limb rest ih =>
      cases b with
      | nil => cases width
      | cons other others => simp [addFrom, ih _ others (Nat.succ.inj width)]

theorem value_addFrom (carry : Nat) (a b : List (BitVec w)) (width : a.length = b.length)
    (small : carry < 2 ^ w) :
    value (addFrom carry a b) = (carry + value a + value b) % 2 ^ (w * a.length) := by
  induction a generalizing b carry with
  | nil => simp [addFrom, value, Nat.mod_one]
  | cons limb rest ih =>
      cases b with
      | nil => cases width
      | cons other others =>
          have fits := sum_fits carry limb other small
          have shorter := Nat.succ.inj width
          simp only [addFrom, value, wide_of_lt _ fits, List.length_cons]
          rw [ih _ others shorter (carried_lt _ fits), Nat.add_assoc (carried w _), cons_mod]
          congr 1
          ring

theorem value_add (a b : List (BitVec w)) (width : a.length = b.length) :
    value (add a b) = (value a + value b) % 2 ^ (w * a.length) := by
  rw [add, value_addFrom 0 a b width (Nat.two_pow_pos w), Nat.zero_add]

theorem add_length (a b : List (BitVec w)) (width : a.length = b.length) :
    (add a b).length = a.length := addFrom_length 0 a b width

def complement (a : List (BitVec w)) : List (BitVec w) := a.map fun limb => ~~~limb

@[simp] theorem complement_length (a : List (BitVec w)) : (complement a).length = a.length :=
  List.length_map ..

theorem value_complement (a : List (BitVec w)) :
    value (complement a) + value a + 1 = 2 ^ (w * a.length) := by
  induction a with
  | nil => simp [complement, value]
  | cons limb rest ih =>
      have bound := limb.isLt
      simp only [complement, List.map_cons, value, BitVec.toNat_not, List.length_cons] at ih ⊢
      rw [Nat.mul_succ, Nat.add_comm (w * rest.length), Nat.pow_add, ← ih]
      have split : 2 ^ w * (value (rest.map fun limb => ~~~limb) + value rest + 1) =
          2 ^ w * value (rest.map fun limb => ~~~limb) + 2 ^ w * value rest + 2 ^ w := by ring
      omega

def increment : List (BitVec w) → List (BitVec w)
  | [] => []
  | limb :: rest => if limb + 1 = 0 then 0 :: increment rest else (limb + 1) :: rest

@[simp] theorem increment_length (a : List (BitVec w)) : (increment a).length = a.length := by
  induction a with
  | nil => rfl
  | cons limb rest ih =>
      unfold increment
      split <;> simp [ih]

theorem value_increment (a : List (BitVec w)) :
    value (increment a) = (value a + 1) % 2 ^ (w * a.length) := by
  induction a with
  | nil => simp [increment, value]
  | cons limb rest ih =>
      have bound := limb.isLt
      have reduced : (limb + 1).toNat = (limb.toNat + 1) % 2 ^ w := by
        simp [BitVec.toNat_add]
      have whole := cons_mod (w := w) (limb.toNat + 1) (value rest) rest.length
      unfold increment
      split
      next wraps =>
        have full : limb.toNat + 1 = 2 ^ w := by
          rw [wraps] at reduced
          have multiple := Nat.dvd_of_mod_eq_zero (by simpa using reduced.symm)
          have := Nat.le_of_dvd (Nat.succ_pos _) multiple
          omega
        have one : carried w (limb.toNat + 1) = 1 := by
          rw [carried, full, Nat.div_self (Nat.two_pow_pos w)]
        have zero : (digit (limb.toNat + 1) : BitVec w).toNat = 0 := by
          rw [digit, BitVec.toNat_ofNat, full, Nat.mod_self]
        rw [one, zero] at whole
        simp only [value, ih, List.length_cons, show (0 : BitVec w).toNat = 0 from by simp]
        rw [Nat.add_comm (value rest), whole]
        congr 1
        omega
      next stays =>
        have small : limb.toNat + 1 < 2 ^ w := by
          by_contra full
          apply stays
          apply BitVec.eq_of_toNat_eq
          rw [reduced, show limb.toNat + 1 = 2 ^ w by omega]
          simp
        have below := value_lt ((limb + 1) :: rest)
        rw [Nat.mod_eq_of_lt small] at reduced
        simp only [value, reduced, List.length_cons] at below ⊢
        rw [Nat.mod_eq_of_lt (by omega)]
        omega

def negate (a : List (BitVec w)) : List (BitVec w) := increment (complement a)

def sub (a b : List (BitVec w)) : List (BitVec w) := add a (negate b)

theorem value_sub_mod (a b : List (BitVec w)) (width : a.length = b.length) :
    value (sub a b) = (value a + (2 ^ (w * a.length) - value b)) % 2 ^ (w * a.length) := by
  have same : a.length = (negate b).length := by simp [negate, width]
  have whole := value_complement b
  rw [sub, value_add a _ same, negate, value_increment, complement_length, width, Nat.add_mod_mod,
    ← whole]
  congr 1
  omega

theorem value_sub (a b : List (BitVec w)) (width : a.length = b.length) (le : value b ≤ value a) :
    value (sub a b) = value a - value b := by
  have below := value_lt a
  have sum : value a + (2 ^ (w * a.length) - value b) =
      value a - value b + 2 ^ (w * a.length) := by omega
  rw [value_sub_mod a b width, sum, Nat.add_mod_right, Nat.mod_eq_of_lt (by omega)]

theorem sub_length (a b : List (BitVec w)) (width : a.length = b.length) :
    (sub a b).length = a.length := add_length a _ (by simp [negate, width])

end sums

section products

def mulWordFrom (factor : BitVec w) : Nat → List (BitVec w) → List (BitVec w)
  | _, [] => []
  | carry, limb :: rest =>
      let n := wide w (carry + factor.toNat * limb.toNat)
      digit n :: mulWordFrom factor (carried w n) rest

def mulWord (factor : BitVec w) (a : List (BitVec w)) : List (BitVec w) := mulWordFrom factor 0 a

theorem value_mulWordFrom (factor : BitVec w) (carry : Nat) (a : List (BitVec w))
    (small : carry < 2 ^ w) :
    value (mulWordFrom factor carry a) =
      (carry + factor.toNat * value a) % 2 ^ (w * a.length) := by
  induction a generalizing carry with
  | nil => simp [mulWordFrom, value, Nat.mod_one]
  | cons limb rest ih =>
      have fits : carry + factor.toNat * limb.toNat < 2 ^ w * 2 ^ w := by
        have room := product_fits carry 0 factor limb small
        omega
      simp only [mulWordFrom, value, wide_of_lt _ fits, List.length_cons]
      rw [ih _ (carried_lt _ fits), cons_mod]
      congr 1
      ring

theorem value_mulWord (factor : BitVec w) (a : List (BitVec w)) :
    value (mulWord factor a) = factor.toNat * value a % 2 ^ (w * a.length) := by
  rw [mulWord, value_mulWordFrom factor 0 a (Nat.two_pow_pos w), Nat.zero_add]

def mulRow (factor : BitVec w) : Nat → List (BitVec w) → List (BitVec w) → List (BitVec w)
  | carry, old :: olds, limb :: limbs =>
      let n := wide w (carry + old.toNat + factor.toNat * limb.toNat)
      digit n :: mulRow factor (carried w n) olds limbs
  | _, _, _ => []

theorem mulRow_length (factor : BitVec w) (carry : Nat) (olds limbs : List (BitVec w))
    (enough : olds.length ≤ limbs.length) :
    (mulRow factor carry olds limbs).length = olds.length := by
  induction olds generalizing carry limbs with
  | nil => simp [mulRow]
  | cons old olds ih =>
      cases limbs with
      | nil => simp at enough
      | cons limb limbs => simp [mulRow, ih _ limbs (Nat.le_of_succ_le_succ enough)]

theorem value_mulRow (factor : BitVec w) (carry : Nat) (olds limbs : List (BitVec w))
    (enough : olds.length ≤ limbs.length) (small : carry < 2 ^ w) :
    value (mulRow factor carry olds limbs) =
      (carry + value olds + factor.toNat * value limbs) % 2 ^ (w * olds.length) := by
  induction olds generalizing carry limbs with
  | nil => simp [mulRow, value, Nat.mod_one]
  | cons old olds ih =>
      cases limbs with
      | nil => simp at enough
      | cons limb limbs =>
          have fits := product_fits carry old factor limb small
          simp only [mulRow, value, wide_of_lt _ fits, List.length_cons]
          rw [ih _ limbs (Nat.le_of_succ_le_succ enough) (carried_lt _ fits),
            Nat.add_assoc (carried w _), cons_mod]
          congr 1
          ring

def mulRows : List (BitVec w) → List (BitVec w) → List (BitVec w) → List (BitVec w)
  | factor :: factors, limbs, result =>
      match mulRow factor 0 result limbs with
      | [] => []
      | low :: high => low :: mulRows factors limbs high
  | [], _, result => result

def mul (a b : List (BitVec w)) : List (BitVec w) := mulRows a b (a.map fun _ => 0)

theorem value_mulRows (factors limbs result : List (BitVec w))
    (rows : factors.length = result.length) (enough : result.length ≤ limbs.length) :
    (mulRows factors limbs result).length = result.length ∧
      value (mulRows factors limbs result) =
        (value result + value factors * value limbs) % 2 ^ (w * result.length) := by
  induction factors generalizing result with
  | nil =>
      rw [List.eq_nil_of_length_eq_zero rows.symm]
      simp [mulRows, value, Nat.mod_one]
  | cons factor factors ih =>
      have length := mulRow_length factor 0 result limbs enough
      have row := value_mulRow factor 0 result limbs enough (Nat.two_pow_pos w)
      rw [mulRows]
      split
      next empty =>
        rw [empty] at length
        rw [← length] at rows
        cases rows
      next low high split =>
        rw [split, List.length_cons] at length
        rw [← length, List.length_cons] at rows
        obtain ⟨same, rest⟩ := ih high (Nat.succ.inj rows) (by omega)
        rw [split, ← length, Nat.zero_add, value] at row
        refine ⟨by rw [List.length_cons, same, length], ?_⟩
        have lowest := low.isLt
        rw [value, rest, ← length, value]
        have whole := cons_mod (w := w) (low.toNat + 2 ^ w * value high)
          (value factors * value limbs) high.length
        rw [digit, BitVec.toNat_ofNat, carried, Nat.add_mul_mod_self_left,
          Nat.mod_eq_of_lt lowest, Nat.add_mul_div_left _ _ (Nat.two_pow_pos w),
          Nat.div_eq_of_lt lowest, Nat.zero_add] at whole
        rw [whole, row, Nat.mod_add_mod]
        congr 1
        ring

theorem value_zeros (a : List (BitVec w)) : value (a.map fun _ => (0 : BitVec w)) = 0 := by
  induction a with
  | nil => rfl
  | cons limb rest ih =>
      rw [List.map_cons, value, ih]
      simp

theorem value_mul (a b : List (BitVec w)) (width : a.length = b.length) :
    value (mul a b) = value a * value b % 2 ^ (w * a.length) := by
  have rows := (value_mulRows a b (a.map fun _ => 0) (by simp) (by simp [width])).2
  rw [value_zeros, Nat.zero_add, List.length_map] at rows
  exact rows

end products

section bits

theorem getElem_ofNat (width n i : Nat) (inside : i < width) :
    (ofNat width n : List (BitVec w)).getD i 0 = BitVec.ofNat w (n / 2 ^ (w * i)) := by
  induction width generalizing n i with
  | zero => omega
  | succ width ih =>
      cases i with
      | zero => simp [ofNat]
      | succ i =>
          rw [ofNat, List.getD_cons_succ, ih _ i (by omega), Nat.div_div_eq_div_mul,
            ← Nat.pow_add, Nat.mul_succ, Nat.add_comm]

theorem testBit_value (a : List (BitVec w)) (i : Nat) (positive : 0 < w) :
    (value a).testBit i = (a.getD (i / w) 0).getLsbD (i % w) := by
  induction a generalizing i with
  | nil => simp [value]
  | cons limb rest ih =>
      rw [value, Nat.add_comm, Nat.testBit_two_pow_mul_add _ limb.isLt]
      split
      next low => simp [Nat.div_eq_of_lt low, Nat.mod_eq_of_lt low, BitVec.getLsbD]
      next high =>
        obtain ⟨j, rfl⟩ : ∃ j, i = j + w := ⟨i - w, by omega⟩
        rw [Nat.add_sub_cancel, ih, Nat.add_div_right _ positive, Nat.add_mod_right,
          List.getD_cons_succ]

def tabulate (width : Nat) (word : Nat → BitVec w) : List (BitVec w) := (List.range width).map word

@[simp] theorem tabulate_length (width : Nat) (word : Nat → BitVec w) :
    (tabulate width word).length = width := by
  simp [tabulate]

theorem testBit_tabulate (width : Nat) (word : Nat → BitVec w) (i : Nat) (positive : 0 < w) :
    (value (tabulate width word)).testBit i =
      (decide (i / w < width) && (word (i / w)).getLsbD (i % w)) := by
  rw [testBit_value _ _ positive]
  by_cases inside : i / w < width
  · simp [tabulate, List.getD_eq_getElem?_getD, inside]
  · simp [tabulate, List.getD_eq_getElem?_getD, inside]

def shiftLeft (a : List (BitVec w)) (shift : Nat) : List (BitVec w) :=
  tabulate a.length fun i =>
    (if shift / w ≤ i then a.getD (i - shift / w) 0 <<< (shift % w) else 0) |||
      if shift / w + 1 ≤ i ∧ shift % w ≠ 0 then
        a.getD (i - shift / w - 1) 0 >>> (w - shift % w)
      else 0

def shiftRight (a : List (BitVec w)) (shift : Nat) : List (BitVec w) :=
  tabulate a.length fun i =>
    (a.getD (i + shift / w) 0 >>> (shift % w)) |||
      if shift % w ≠ 0 then a.getD (i + shift / w + 1) 0 <<< (w - shift % w) else 0

theorem moved_low (i shift : Nat) (positive : 0 < w) (same : i % w + shift % w < w) :
    (i + shift) / w = i / w + shift / w ∧ (i + shift) % w = i % w + shift % w := by
  rw [Nat.add_div positive, if_neg (by omega), Nat.add_mod, Nat.mod_eq_of_lt same]
  exact ⟨rfl, rfl⟩

theorem moved_high (i shift : Nat) (positive : 0 < w) (next : w ≤ i % w + shift % w) :
    (i + shift) / w = i / w + shift / w + 1 ∧ (i + shift) % w = i % w + shift % w - w := by
  have low := Nat.mod_lt i positive
  have amount := Nat.mod_lt shift positive
  rw [Nat.add_div positive, if_pos next, Nat.add_mod, Nat.mod_eq_sub_mod next,
    Nat.mod_eq_of_lt (by omega)]
  exact ⟨rfl, rfl⟩

theorem value_shiftRight (a : List (BitVec w)) (shift : Nat) (positive : 0 < w) :
    value (shiftRight a shift) = value a / 2 ^ shift := by
  apply Nat.eq_of_testBit_eq
  intro i
  have position := Nat.mod_lt i positive
  have amount := Nat.mod_lt shift positive
  rw [Nat.testBit_div_two_pow, testBit_value a _ positive, shiftRight,
    testBit_tabulate _ _ _ positive]
  by_cases same : i % w + shift % w < w
  · obtain ⟨word, bit⟩ := moved_low i shift positive same
    rw [word, bit, BitVec.getLsbD_or, BitVec.getLsbD_ushiftRight, Nat.add_comm (shift % w)]
    have below : i % w < w - shift % w := by omega
    have outside : (if shift % w ≠ 0 then
        a.getD (i / w + shift / w + 1) 0 <<< (w - shift % w) else 0).getLsbD (i % w) = false := by
      split <;> simp [below]
    rw [outside, Bool.or_false]
    by_cases inside : i / w < a.length
    · simp [inside]
    · rw [List.getD_eq_default _ _ (Nat.le_add_right_of_le (Nat.not_lt.mp inside))]
      simp
  · obtain ⟨word, bit⟩ := moved_high i shift positive (by omega)
    have shifted : shift % w ≠ 0 := by omega
    rw [word, bit, BitVec.getLsbD_or, BitVec.getLsbD_ushiftRight, if_pos shifted,
      BitVec.getLsbD_shiftLeft, BitVec.getLsbD_of_ge _ (shift % w + i % w) (by omega),
      show i % w - (w - shift % w) = i % w + shift % w - w by omega]
    have above : ¬ i % w < w - shift % w := by omega
    by_cases inside : i / w < a.length
    · simp [inside, position, above]
    · have beyond : a.length ≤ i / w + shift / w + 1 := by
        have low := Nat.le_add_right (i / w) (shift / w)
        omega
      rw [List.getD_eq_default _ _ beyond]
      simp

theorem value_shiftLeft (a : List (BitVec w)) (shift : Nat) (positive : 0 < w) :
    value (shiftLeft a shift) = value a * 2 ^ shift % 2 ^ (w * a.length) := by
  apply Nat.eq_of_testBit_eq
  intro i
  have position := Nat.mod_lt i positive
  have amount := Nat.mod_lt shift positive
  have inside : i < w * a.length ↔ i / w < a.length := by
    rw [Nat.div_lt_iff_lt_mul positive, Nat.mul_comm]
  rw [Nat.testBit_mod_two_pow, Nat.testBit_mul_two_pow, shiftLeft, testBit_tabulate _ _ _ positive]
  simp only [inside]
  congr 1
  by_cases moved : shift ≤ i
  · obtain ⟨j, rfl⟩ : ∃ j, i = j + shift := ⟨i - shift, by omega⟩
    have start := Nat.mod_lt j positive
    rw [Nat.add_sub_cancel, testBit_value a _ positive, decide_eq_true moved, Bool.true_and,
      BitVec.getLsbD_or]
    by_cases same : j % w + shift % w < w
    · obtain ⟨word, bit⟩ := moved_low j shift positive same
      rw [word, bit, if_pos (Nat.le_add_left _ _), Nat.add_sub_cancel, BitVec.getLsbD_shiftLeft,
        Nat.add_sub_cancel]
      have outside : (if shift / w + 1 ≤ j / w + shift / w ∧ shift % w ≠ 0 then
          a.getD (j / w - 1) 0 >>> (w - shift % w) else 0).getLsbD (j % w + shift % w) = false := by
        split
        next =>
          rw [BitVec.getLsbD_ushiftRight]
          exact BitVec.getLsbD_of_ge _ _ (by omega)
        next => simp
      rw [outside]
      simp [same]
    · obtain ⟨word, bit⟩ := moved_high j shift positive (by omega)
      rw [word, bit]
      generalize j / w = q, shift / w = k, j % w = r, shift % w = s at start amount same
      have upper : k ≤ q + k + 1 := by omega
      have lower : k + 1 ≤ q + k + 1 ∧ s ≠ 0 := by omega
      rw [if_pos upper, if_pos lower, show q + k + 1 - k - 1 = q by omega,
        BitVec.getLsbD_ushiftRight, show w - s + (r + s - w) = r by omega,
        BitVec.getLsbD_shiftLeft]
      have below : r + s - w < s := by omega
      simp [below]
  · rw [decide_eq_false moved, Bool.false_and, BitVec.getLsbD_or]
    have order : i / w ≤ shift / w := Nat.div_le_div_right (by omega)
    have parts := Nat.div_add_mod i w
    have shiftParts := Nat.div_add_mod shift w
    generalize i / w = q, shift / w = k, i % w = r, shift % w = s at *
    have last : ¬ (k + 1 ≤ q ∧ s ≠ 0) := by omega
    rw [if_neg last]
    by_cases same : k = q
    · subst same
      have below : r < s := by omega
      simp [below]
    · have above : ¬ k ≤ q := by omega
      simp [above]

theorem shiftLeft_length (a : List (BitVec w)) (shift : Nat) :
    (shiftLeft a shift).length = a.length := by
  simp [shiftLeft]

theorem shiftRight_length (a : List (BitVec w)) (shift : Nat) :
    (shiftRight a shift).length = a.length := by
  simp [shiftRight]

def topBit (limb : BitVec w) : Nat → Nat
  | 0 => 1
  | bit + 1 => if limb.getLsbD (bit + 1) then bit + 2 else topBit limb bit

def bits : List (BitVec w) → Nat
  | [] => 0
  | limb :: rest =>
      if 0 < bits rest then w + bits rest
      else if limb = 0 then 0
      else topBit limb (w - 1)

theorem topBit_size (limb : BitVec w) (bit : Nat) (nonzero : limb ≠ 0)
    (bound : limb.toNat < 2 ^ (bit + 1)) : topBit limb bit = limb.toNat.size := by
  have positive : 0 < limb.toNat := by
    rw [Nat.pos_iff_ne_zero]
    exact fun zero => nonzero (BitVec.eq_of_toNat_eq (by simpa using zero))
  induction bit with
  | zero =>
      have one : limb.toNat = 1 := by omega
      rw [topBit, one, Nat.size_one]
  | succ bit ih =>
      rw [topBit]
      split
      next set =>
        have reached : 2 ^ (bit + 1) ≤ limb.toNat := Nat.ge_two_pow_of_testBit set
        have upper := Nat.size_le.mpr bound
        have lower := Nat.lt_size.mpr reached
        omega
      next clear =>
        apply ih
        by_contra reached
        have top : limb.toNat.testBit (bit + 1) = true := by
          rw [Nat.testBit_eq_decide_div_mod_eq, decide_eq_true_eq]
          have one : limb.toNat / 2 ^ (bit + 1) = 1 := by
            rw [Nat.pow_succ] at bound
            exact Nat.div_eq_of_lt_le (by omega) (by omega)
          rw [one]
        exact clear top

theorem size_high (low high width : Nat) (bound : low < 2 ^ width) (positive : 0 < high) :
    (low + 2 ^ width * high).size = width + high.size := by
  have size := Nat.size_pos.mpr positive
  have upper : low + 2 ^ width * high < 2 ^ (width + high.size) := by
    have top := Nat.lt_size_self high
    rw [Nat.pow_add]
    calc low + 2 ^ width * high < 2 ^ width * (high + 1) := by
          rw [Nat.mul_succ]
          omega
      _ ≤ 2 ^ width * 2 ^ high.size := Nat.mul_le_mul_left _ top
  have lower : 2 ^ (width + (high.size - 1)) ≤ low + 2 ^ width * high := by
    have reached : 2 ^ (high.size - 1) ≤ high := Nat.lt_size.mp (by omega)
    rw [Nat.pow_add]
    exact le_trans (Nat.mul_le_mul_left _ reached) (Nat.le_add_left _ _)
  have above := Nat.size_le.mpr upper
  have below := Nat.lt_size.mpr lower
  omega

theorem bits_eq (a : List (BitVec w)) : bits a = (value a).size := by
  induction a with
  | nil => simp [bits, value]
  | cons limb rest ih =>
      have low := limb.isLt
      rw [bits, value, ih]
      by_cases zero : value rest = 0
      · rw [zero, Nat.size_zero, if_neg (Nat.lt_irrefl 0), Nat.mul_zero, Nat.add_zero]
        split
        next empty => simp [empty]
        next nonzero =>
          apply topBit_size limb (w - 1) nonzero
          cases w with
          | zero => exact absurd (Subsingleton.elim limb 0) nonzero
          | succ width => simpa using low
      · have positive : 0 < value rest := Nat.pos_of_ne_zero zero
        rw [if_pos (Nat.size_pos.mpr positive), size_high _ _ w low positive]

def compareTo : List (BitVec w) → List (BitVec w) → Ordering
  | a :: as, b :: bs =>
      match compareTo as bs with
      | .eq => compare a.toNat b.toNat
      | unequal => unequal
  | _, _ => .eq

theorem compareTo_eq (a b : List (BitVec w)) (width : a.length = b.length) :
    compareTo a b = compare (value a) (value b) := by
  induction a generalizing b with
  | nil =>
      rw [List.eq_nil_of_length_eq_zero width.symm]
      rfl
  | cons limb rest ih =>
      cases b with
      | nil => cases width
      | cons other others =>
          have left := limb.isLt
          have right := other.isLt
          rw [compareTo, ih others (Nat.succ.inj width)]
          simp only [value]
          rcases Nat.lt_trichotomy (value rest) (value others) with less | same | more
          · have gap := Nat.mul_le_mul_left (2 ^ w) less
            have below : limb.toNat + 2 ^ w * value rest < other.toNat + 2 ^ w * value others := by
              rw [Nat.mul_succ] at gap
              omega
            rw [Nat.compare_eq_lt.mpr below, Nat.compare_eq_lt.mpr less]
          · have words : compare (limb.toNat + 2 ^ w * value others)
                (other.toNat + 2 ^ w * value others) = compare limb.toNat other.toNat := by
              simp only [compare, compareOfLessAndEq, Nat.add_lt_add_iff_right,
                Nat.add_right_cancel_iff]
            rw [same, words, Nat.compare_eq_eq.mpr rfl]
          · have gap := Nat.mul_le_mul_left (2 ^ w) more
            have above : other.toNat + 2 ^ w * value others < limb.toNat + 2 ^ w * value rest := by
              rw [Nat.mul_succ] at gap
              omega
            rw [Nat.compare_eq_gt.mpr above, Nat.compare_eq_gt.mpr more]

def setBit (a : List (BitVec w)) (i : Nat) : List (BitVec w) :=
  tabulate a.length fun j => a.getD j 0 ||| if j = i / w then (1 : BitVec w) <<< (i % w) else 0

theorem setBit_length (a : List (BitVec w)) (i : Nat) : (setBit a i).length = a.length := by
  simp [setBit]

theorem value_setBit (a : List (BitVec w)) (i high : Nat) (positive : 0 < w)
    (inside : i < w * a.length) (clear : value a = 2 ^ (i + 1) * high) :
    value (setBit a i) = value a + 2 ^ i := by
  rw [clear, Nat.two_pow_add_eq_or_of_lt (Nat.pow_lt_pow_succ (by decide)), ← clear]
  apply Nat.eq_of_testBit_eq
  intro j
  have position := Nat.mod_lt j positive
  have words : i / w < a.length := by
    rwa [Nat.div_lt_iff_lt_mul positive, Nat.mul_comm]
  rw [Nat.testBit_or, testBit_value a j positive, setBit, testBit_tabulate _ _ _ positive,
    BitVec.getLsbD_or, Nat.testBit_two_pow]
  by_cases same : i = j
  · subst same
    simp [words, position]
  · have untouched : (if j / w = i / w then (1 : BitVec w) <<< (i % w) else 0).getLsbD (j % w) =
        false := by
      split
      next word =>
        have parts := Nat.div_add_mod i w
        have otherParts := Nat.div_add_mod j w
        have apart : j % w ≠ i % w := by
          intro bit
          rw [word, bit, parts] at otherParts
          exact same otherParts
        rw [BitVec.getLsbD_shiftLeft]
        by_cases above : j % w < i % w
        · simp [above]
        · have later : j % w - i % w ≠ 0 := by omega
          simp [later]
      next => simp
    rw [untouched, Bool.or_false, decide_eq_false same, Bool.or_false]
    by_cases within : j / w < a.length
    · simp [within]
    · rw [List.getD_eq_default _ _ (Nat.not_lt.mp within)]
      simp

end bits

section division

def divideFrom : Nat → List (BitVec w) → List (BitVec w) → List (BitVec w) → List (BitVec w)
  | 0, _, _, quotient => quotient
  | shift + 1, num, div, quotient =>
      if (compareTo num div).isGE then
        divideFrom shift (sub num div) (shiftRight div 1) (setBit quotient shift)
      else divideFrom shift num (shiftRight div 1) quotient

/-- operator/=; none is the exception thrown on a division by zero. -/
def divide (num div : List (BitVec w)) : Option (List (BitVec w)) :=
  let zero := num.map fun _ => 0
  if bits div = 0 then none
  else if bits num < bits div then some zero
  else
    let shift := bits num - bits div
    some (divideFrom (shift + 1) num (shiftLeft div shift) zero)

theorem value_divideFrom (steps divisor total high : Nat) (num div quotient : List (BitVec w))
    (positive : 0 < w) (width : num.length = div.length) (result : quotient.length = num.length)
    (room : steps ≤ w * num.length)
    (aligned : ∀ shift, steps = shift + 1 → value div = divisor * 2 ^ shift)
    (below : value num < divisor * 2 ^ steps) (taken : value quotient = 2 ^ steps * high)
    (split : value quotient * divisor + value num = total) :
    (divideFrom steps num div quotient).length = num.length ∧
      value (divideFrom steps num div quotient) = total / divisor := by
  induction steps generalizing num div quotient high with
  | zero =>
      rw [Nat.pow_zero, Nat.mul_one] at below
      have nonzero : 0 < divisor := by omega
      refine ⟨result, ?_⟩
      rw [divideFrom, ← split, Nat.mul_comm, Nat.mul_add_div nonzero, Nat.div_eq_of_lt below,
        Nat.add_zero]
  | succ shift ih =>
      have placed := aligned shift rfl
      have halved : ∀ k, shift = k + 1 → value (shiftRight div 1) = divisor * 2 ^ k := by
        intro k next
        rw [value_shiftRight div 1 positive, placed, next, Nat.pow_one, Nat.pow_succ,
          ← Nat.mul_assoc, Nat.mul_div_cancel _ (by decide)]
      have double : divisor * 2 ^ (shift + 1) = divisor * 2 ^ shift + divisor * 2 ^ shift := by
        rw [Nat.pow_succ]
        ring
      have shifted := shiftRight_length div 1
      rw [divideFrom, compareTo_eq num div width]
      split_ifs with fits
      · have le : value div ≤ value num := by simpa [Nat.isGE_compare] using fits
        have left := value_sub num div width le
        have size := sub_length num div width
        have set := value_setBit quotient shift high positive (by rw [result]; omega) taken
        rw [← size]
        apply ih (2 * high + 1)
        · rw [size, width, shifted]
        · rw [setBit_length, result, size]
        · rw [size]
          omega
        · exact halved
        · rw [left]
          omega
        · rw [set, taken, Nat.pow_succ]
          ring
        · rw [set, left, Nat.add_mul, Nat.mul_comm (2 ^ shift), ← placed]
          omega
      · have lt : value num < value div := by simpa [Nat.isGE_compare] using fits
        apply ih (2 * high)
        · rw [width, shifted]
        · exact result
        · omega
        · exact halved
        · rw [← placed]
          exact lt
        · rw [taken, Nat.pow_succ]
          ring
        · exact split

theorem divide_eq (num div : List (BitVec w)) (positive : 0 < w)
    (width : num.length = div.length) (nonzero : value div ≠ 0) :
    ∃ quotient, divide num div = some quotient ∧ quotient.length = num.length ∧
      value quotient = value num / value div := by
  have divSize : 0 < bits div := by
    rw [bits_eq]
    exact Nat.size_pos.mpr (Nat.pos_of_ne_zero nonzero)
  have numTop := Nat.lt_size_self (value num)
  have divTop := Nat.lt_size_self (value div)
  have divReached : 2 ^ (bits div - 1) ≤ value div := by
    rw [bits_eq] at divSize ⊢
    exact Nat.lt_size.mp (by omega)
  rw [← bits_eq] at numTop divTop
  rw [divide, if_neg (Nat.pos_iff_ne_zero.mp divSize)]
  split_ifs with smaller
  · refine ⟨_, rfl, List.length_map .., ?_⟩
    have less : value num < value div :=
      calc value num < 2 ^ bits num := numTop
        _ ≤ 2 ^ (bits div - 1) := Nat.pow_le_pow_right (by decide) (by omega)
        _ ≤ value div := divReached
    rw [value_zeros, Nat.div_eq_of_lt less]
  · have sizes : bits num ≤ w * num.length := by
      rw [bits_eq]
      exact Nat.size_le.mpr (value_lt num)
    have split : bits div + (bits num - bits div) = bits num := by omega
    have fits : value div * 2 ^ (bits num - bits div) < 2 ^ (w * div.length) :=
      calc value div * 2 ^ (bits num - bits div)
          < 2 ^ bits div * 2 ^ (bits num - bits div) :=
            Nat.mul_lt_mul_of_pos_right divTop (Nat.two_pow_pos _)
        _ = 2 ^ bits num := by rw [← Nat.pow_add, split]
        _ ≤ 2 ^ (w * div.length) := by
            rw [← width]
            exact Nat.pow_le_pow_right (by decide) sizes
    have aligned := value_shiftLeft div (bits num - bits div) positive
    rw [Nat.mod_eq_of_lt fits] at aligned
    have below : value num < value div * 2 ^ (bits num - bits div + 1) :=
      calc value num < 2 ^ bits num := numTop
        _ = 2 ^ (bits div - 1) * 2 ^ (bits num - bits div + 1) := by
            rw [← Nat.pow_add]
            congr 1
            omega
        _ ≤ value div * 2 ^ (bits num - bits div + 1) := Nat.mul_le_mul_right _ divReached
    refine ⟨_, rfl, value_divideFrom _ (value div) (value num) 0 num _ _ positive ?_ ?_ ?_ ?_ below
      ?_ ?_⟩
    · rw [shiftLeft_length, width]
    · rw [List.length_map]
    · omega
    · intro shift same
      rw [aligned, Nat.succ.inj same]
    · rw [value_zeros, Nat.mul_zero]
    · rw [value_zeros, Nat.zero_mul, Nat.zero_add]

theorem divide_zero (num div : List (BitVec w)) (zero : value div = 0) : divide num div = none := by
  rw [divide, bits_eq, zero, Nat.size_zero, if_pos rfl]

end division

end Limbs
