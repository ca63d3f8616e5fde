import Mathlib.Data.Nat.Bitwise
import Mathlib.Data.Set.Insert

set_option autoImplicit false

/-! Bits in an array of bytes, eight to a byte; none is an access behind the end. -/

namespace BitArray

def bitMask (n : Nat) : UInt8 := 1 <<< UInt8.ofNat (7 &&& n)

def testBit (data : List UInt8) (n : Nat) : Option Bool :=
  data[n >>> 3]?.map fun byte => byte &&& bitMask n != 0

def setBit (data : List UInt8) (n : Nat) : Option (List UInt8) :=
  data[n >>> 3]?.map fun byte => data.set (n >>> 3) (byte ||| bitMask n)

def orBytes : List UInt8 → List UInt8 → Option (List UInt8)
  | [], _ => some []
  | _ :: _, [] => none
  | byte :: rest, otherByte :: others =>
      (orBytes rest others).map fun later => (byte ||| otherByte) :: later

def bits (data : List UInt8) : Set Nat := {n | testBit data n = some true}

theorem and_seven (n : Nat) : 7 &&& n = n % 8 := by
  rw [Nat.and_comm]
  exact Nat.and_two_pow_sub_one_eq_mod n 3

theorem shiftRight_three (n : Nat) : n >>> 3 = n / 8 := Nat.shiftRight_eq_div_pow n 3

theorem bitMask_toNat (n : Nat) : (bitMask n).toNat = 2 ^ (n % 8) := by
  have all : ∀ p : Fin 8, ((1 : UInt8) <<< UInt8.ofNat p.val).toNat = 2 ^ p.val := by decide
  rw [bitMask, and_seven]
  exact all ⟨n % 8, Nat.mod_lt n (by decide)⟩

theorem masked (byte : UInt8) (n : Nat) :
    (byte &&& bitMask n != 0) = byte.toNat.testBit (n % 8) := by
  rw [Bool.eq_iff_iff, bne_iff_ne, ne_eq, ← UInt8.toNat_inj, UInt8.toNat_and, bitMask_toNat,
    Nat.and_two_pow]
  cases byte.toNat.testBit (n % 8) <;> simp

theorem mem_bits {data : List UInt8} {n : Nat} :
    n ∈ bits data ↔ ∃ byte, data[n / 8]? = some byte ∧ byte.toNat.testBit (n % 8) = true := by
  rw [bits, Set.mem_ofPred_eq, testBit, shiftRight_three, Option.map_eq_some_iff]
  simp only [masked]

theorem testBit_isSome (data : List UInt8) (n : Nat) (inside : n < 8 * data.length) :
    ∃ bit, testBit data n = some bit ∧ (bit = true ↔ n ∈ bits data) := by
  have word : n / 8 < data.length := by omega
  have found : testBit data n = some (data[n / 8] &&& bitMask n != 0) := by
    rw [testBit, shiftRight_three, List.getElem?_eq_getElem word]
    rfl
  exact ⟨_, found, by rw [bits, Set.mem_ofPred_eq, found, Option.some_inj]⟩

theorem setBit_bits (data : List UInt8) (n : Nat) (inside : n < 8 * data.length) :
    ∃ next, setBit data n = some next ∧ next.length = data.length ∧
      bits next = insert n (bits data) := by
  have word : n / 8 < data.length := by omega
  refine ⟨data.set (n / 8) (data[n / 8] ||| bitMask n), ?_, List.length_set, ?_⟩
  · rw [setBit, shiftRight_three, List.getElem?_eq_getElem word]
    rfl
  · ext m
    rw [Set.mem_insert_iff, mem_bits, mem_bits, List.getElem?_set]
    by_cases same : n / 8 = m / 8
    · have bit (byte : UInt8) : (byte ||| bitMask n).toNat.testBit (m % 8) = true ↔
          m = n ∨ byte.toNat.testBit (m % 8) = true := by
        rw [UInt8.toNat_or, Nat.testBit_or, bitMask_toNat, Nat.testBit_two_pow, Bool.or_eq_true,
          decide_eq_true_eq, or_comm]
        exact or_congr_left (by omega)
      rw [if_pos same, if_pos word, ← same, List.getElem?_eq_getElem word]
      simp only [Option.some.injEq, exists_eq_left', bit]
    · have apart : m ≠ n := by
        rintro rfl
        exact same rfl
      rw [if_neg same, or_iff_right apart]

theorem orBytes_bits (data other : List UInt8) (width : data.length = other.length) :
    ∃ next, orBytes data other = some next ∧ next.length = data.length ∧
      bits next = bits data ∪ bits other := by
  have zipped : ∃ next, orBytes data other = some next ∧
      next = List.zipWith (· ||| ·) data other := by
    induction data generalizing other with
    | nil => exact ⟨[], rfl, rfl⟩
    | cons byte rest ih =>
        cases other with
        | nil => cases width
        | cons otherByte others =>
            obtain ⟨next, merged, same⟩ := ih others (Nat.succ.inj width)
            exact ⟨_, by rw [orBytes, merged]; rfl, by rw [same]; rfl⟩
  obtain ⟨next, merged, same⟩ := zipped
  refine ⟨next, merged, by rw [same, List.length_zipWith, ← width, Nat.min_self], ?_⟩
  ext m
  rw [Set.mem_union, mem_bits, mem_bits, mem_bits, same, List.getElem?_zipWith]
  by_cases word : m / 8 < data.length
  · rw [List.getElem?_eq_getElem word, List.getElem?_eq_getElem (width ▸ word)]
    simp only [Option.some.injEq, exists_eq_left', UInt8.toNat_or, Nat.testBit_or, Bool.or_eq_true]
  · rw [List.getElem?_eq_none (Nat.le_of_not_lt word),
      List.getElem?_eq_none (width ▸ Nat.le_of_not_lt word)]
    simp

theorem mem_bits_full (data : List UInt8) (full : ∀ byte ∈ data, byte = 0xff) (n : Nat)
    (inside : n < 8 * data.length) : n ∈ bits data := by
  have word : n / 8 < data.length := by omega
  have all : ∀ p : Fin 8, (255 : Nat).testBit p.val = true := by decide
  rw [mem_bits]
  refine ⟨_, List.getElem?_eq_getElem word, ?_⟩
  rw [full _ (List.getElem_mem word)]
  exact all ⟨n % 8, Nat.mod_lt n (by decide)⟩

theorem not_mem_bits_zero (data : List UInt8) (zero : ∀ byte ∈ data, byte = 0) (n : Nat) :
    n ∉ bits data := by
  rw [mem_bits]
  rintro ⟨byte, found, bit⟩
  rw [zero byte (List.mem_of_getElem? found), show (0 : UInt8).toNat = 0 from rfl,
    Nat.zero_testBit] at bit
  cases bit

end BitArray
