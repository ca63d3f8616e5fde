import CryptoYen.Primitives.WordsCorrect

set_option autoImplicit false

namespace CryptoYen

namespace Words

open Cells

variable {WIDTH : Nat}

section comparison

def lowWords (a : Words WIDTH) (i : Nat) : Nat := Limbs.value (a.toList.take i)

theorem lowWords_lt (a : Words WIDTH) (i : Nat) (inside : i ≤ WIDTH) :
    lowWords a i < 2 ^ (32 * i) := by
  have bound := Limbs.value_lt (a.toList.take i)
  rwa [List.length_take, length_toList, Nat.min_eq_left inside] at bound

theorem lowWords_succ (a : Words WIDTH) (i : Nat) (inside : i < WIDTH) :
    lowWords a (i + 1) = lowWords a i + 2 ^ (32 * i) * a[i].toNat := by
  have listed : i < a.toList.length := by rwa [length_toList]
  rw [lowWords, List.take_succ_eq_append_getElem listed, Limbs.value_append, List.length_take,
    Nat.min_eq_left (Nat.le_of_lt listed), Vector.getElem_toList]
  simp only [Limbs.value, Nat.mul_zero, Nat.add_zero]
  rfl

theorem lowWords_all (a : Words WIDTH) : lowWords a WIDTH = toNat a := by
  rw [lowWords, toNat, List.take_of_length_le (Nat.le_of_eq (length_toList a))]

theorem low_lt (unit low other : Nat) (word against : BitVec 32) (bound : low < unit)
    (less : word < against) : low + unit * word.toNat < other + unit * against.toNat := by
  have gap := Nat.mul_le_mul_left unit (show word.toNat + 1 ≤ against.toNat from less)
  rw [Nat.mul_succ] at gap
  omega

theorem compareBelow_eq (a b : Words WIDTH) (i : Nat) (inside : i ≤ WIDTH) :
    compareBelow a b i = some (compare (lowWords a i) (lowWords b i)) := by
  induction i with
  | zero => rfl
  | succ i ih =>
      have reached : i < WIDTH := inside
      have left := lowWords_lt a i (Nat.le_of_lt reached)
      have right := lowWords_lt b i (Nat.le_of_lt reached)
      rw [compareBelow, lowWords_succ a i reached, lowWords_succ b i reached]
      simp only [read_eq a i reached, read_eq b i reached, bind, Option.bind_some]
      split
      next less => rw [Nat.compare_eq_lt.mpr (low_lt _ _ _ _ _ left less)]
      next notLess =>
        split
        next more => rw [Nat.compare_eq_gt.mpr (low_lt _ _ _ _ _ right more)]
        next notMore =>
          have same : a[i] = b[i] := BitVec.le_antisymm (BitVec.not_lt.mp notMore)
            (BitVec.not_lt.mp notLess)
          rw [ih (Nat.le_of_lt reached), same]
          simp only [compare, compareOfLessAndEq, Nat.add_lt_add_iff_right,
            Nat.add_right_cancel_iff]

theorem compareTo_eq (a b : Words WIDTH) :
    compareTo a b = some (compare (toNat a) (toNat b)) := by
  rw [compareTo, compareBelow_eq a b WIDTH (Nat.le_refl _), lowWords_all, lowWords_all]

theorem bitsBelow_eq (a : Words WIDTH) (i : Nat) (inside : i ≤ WIDTH) :
    bitsBelow a i = some (lowWords a i).size := by
  induction i with
  | zero => rfl
  | succ i ih =>
      have reached : i < WIDTH := inside
      rw [bitsBelow, lowWords_succ a i reached]
      simp only [read_eq a i reached, bind, Option.bind_some]
      split
      next nonzero =>
        have positive : 0 < a[i].toNat :=
          Nat.pos_of_ne_zero fun zero => nonzero (BitVec.eq_of_toNat_eq zero)
        rw [Limbs.size_high _ _ _ (lowWords_lt a i (Nat.le_of_lt reached)) positive,
          Limbs.topBit_size a[i] 31 nonzero a[i].isLt]
      next zero =>
        rw [ih (Nat.le_of_lt reached), not_not.mp zero, show (0 : BitVec 32).toNat = 0 from rfl,
          Nat.mul_zero, Nat.add_zero]

theorem bits_eq (a : Words WIDTH) : bits a = some (toNat a).size := by
  rw [bits, bitsBelow_eq a WIDTH (Nat.le_refl _), lowWords_all]

theorem equal_eq (a b : Words WIDTH) : equal a b = decide (toNat a = toNat b) := by
  rw [equal, Bool.beq_eq_decide_eq]
  have width : a.toList.length = b.toList.length := by rw [length_toList, length_toList]
  exact decide_eq_decide.mpr ⟨congrArg Limbs.value, Limbs.value_injective a.toList b.toList width⟩

end comparison

section division

theorem setBit_leaves (pn : Words WIDTH) (shift : Nat) (inside : shift < 32 * WIDTH) :
    Leaves (update (· ||| (1 : BitVec 32) <<< (shift % 32)) (shift / 32) pn)
      (Limbs.setBit pn.toList shift) := by
  have word : shift / 32 < WIDTH := by omega
  refine ⟨_, update_eq _ (shift / 32) pn word, List.ext_getElem ?_ fun j here there => ?_⟩
  · rw [length_toList, Limbs.setBit_length, length_toList]
  · rw [length_toList] at here
    simp only [Limbs.setBit, Limbs.tabulate, List.getElem_map, List.getElem_range]
    rw [Vector.getElem_toList, Vector.getElem_set, List.getD_eq_getElem?_getD,
      Vector.getElem?_toList, Vector.getElem?_eq_getElem here, Option.getD_some]
    by_cases same : shift / 32 = j
    · subst same
      rw [if_pos rfl, if_pos rfl]
    · rw [if_neg same, if_neg (Ne.symm same)]
      exact (or_zero _).symm

theorem divideFrom_leaves (steps : Nat) (num div pn : Words WIDTH) (room : steps ≤ 32 * WIDTH) :
    Leaves (divideFrom steps num div pn)
      (Limbs.divideFrom steps num.toList div.toList pn.toList) := by
  induction steps generalizing num div pn with
  | zero => exact ⟨pn, rfl, rfl⟩
  | succ shift ih =>
      have later : shift ≤ 32 * WIDTH := Nat.le_of_succ_le room
      have width : num.toList.length = div.toList.length := by
        rw [length_toList, length_toList]
      obtain ⟨half, shifted, halved⟩ := shiftRightAssign_leaves div 1
      rw [divideFrom, Limbs.divideFrom, Limbs.compareTo_eq _ _ width, compareTo_eq]
      simp only [bind, Option.bind_some]
      change Leaves _ (if (compare (toNat num) (toNat div)).isGE = true then _ else _)
      split
      next ge =>
        obtain ⟨rest, subtracted, difference⟩ := subAssign_leaves num div
        obtain ⟨quotient, updated, marked⟩ := setBit_leaves pn shift room
        simp only [subtracted, updated, shifted, Option.bind_some]
        rw [← difference, ← halved, ← marked]
        exact ih rest half quotient later
      next lt =>
        simp only [shifted, Option.bind_some]
        rw [← halved]
        exact ih num half pn later

theorem divideAssign_zero (a b : Words WIDTH) (wide : 2 ≤ WIDTH) (zero : toNat b = 0) :
    divideAssign a b = some none := by
  rw [divideAssign, assign_zero a wide, bits_eq, bits_eq, zero]
  rfl

theorem divideAssign_yields (a b : Words WIDTH) (wide : 2 ≤ WIDTH) (nonzero : toNat b ≠ 0) :
    ∃ r, divideAssign a b = some (some r) ∧ toNat r = toNat a / toNat b := by
  have width : a.toList.length = b.toList.length := by rw [length_toList, length_toList]
  have zeros : (Vector.replicate WIDTH (0 : BitVec 32)).toList = a.toList.map fun _ => 0 := by
    rw [List.map_const', length_toList, Vector.toList_replicate]
  have sizes : (toNat a).size ≤ 32 * WIDTH := Nat.size_le.mpr (toNat_lt a)
  obtain ⟨quotient, divided, _, exact⟩ := Limbs.divide_eq a.toList b.toList (by decide) width nonzero
  have positive : 0 < (toNat b).size := Nat.size_pos.mpr (Nat.pos_of_ne_zero nonzero)
  rw [divideAssign, assign_zero a wide, bits_eq, bits_eq]
  rw [Limbs.divide, Limbs.bits_eq, Limbs.bits_eq] at divided
  simp only [bind, Option.bind_some]
  change (if (toNat b).size = 0 then none else if (toNat a).size < (toNat b).size then _ else
    _) = _ at divided
  rw [if_neg (Nat.ne_of_gt positive)] at divided ⊢
  split_ifs at divided ⊢ with smaller
  · refine ⟨_, rfl, ?_⟩
    rw [toNat, zeros, Option.some.inj divided]
    exact exact
  · obtain ⟨aligned, shifted, words⟩ :=
      shiftLeftAssign_leaves b ((toNat a).size - (toNat b).size)
    obtain ⟨r, ran, result⟩ := divideFrom_leaves ((toNat a).size - (toNat b).size + 1) a aligned
      (Vector.replicate WIDTH 0) (by omega)
    refine ⟨r, ?_, ?_⟩
    · simp only [shifted, Option.bind_some, ran]
      rfl
    · rw [words, zeros] at result
      rw [toNat, result]
      refine Eq.trans ?_ exact
      exact congrArg Limbs.value (Option.some.inj divided)

end division

section numbers

variable (a b : Words WIDTH)

theorem addAssign_yields :
    Yields (addAssign a b) ((toNat a + toNat b) % 2 ^ (32 * WIDTH)) := by
  have sum := (addAssign_leaves a b).yields
  rwa [Limbs.value_add _ _ (by rw [length_toList, length_toList]), length_toList] at sum

theorem subAssign_yields :
    Yields (subAssign a b) (((toNat a : Int) - toNat b) % 2 ^ (32 * WIDTH)).toNat := by
  have difference := (subAssign_leaves a b).yields
  rw [Limbs.value_sub_mod _ _ (by rw [length_toList, length_toList]), length_toList] at difference
  have wrapped : ((toNat a : Int) - toNat b) % 2 ^ (32 * WIDTH) =
      ((toNat a + (2 ^ (32 * WIDTH) - toNat b)) % 2 ^ (32 * WIDTH) : Nat) := by
    rw [Int.natCast_emod, Int.natCast_add, Int.ofNat_sub (Nat.le_of_lt (toNat_lt b))]
    push_cast
    rw [show (toNat a : Int) + (2 ^ (32 * WIDTH) - toNat b) =
      toNat a - toNat b + 2 ^ (32 * WIDTH) by ring, Int.add_emod_right]
  rwa [wrapped, Int.toNat_natCast]

theorem mulWordAssign_yields (b32 : BitVec 32) :
    Yields (mulWordAssign a b32) (toNat a * b32.toNat % 2 ^ (32 * WIDTH)) := by
  have product := (mulWordAssign_leaves a b32).yields
  rwa [Limbs.value_mulWord, length_toList, Nat.mul_comm] at product

theorem mulAssign_yields (wide : 2 ≤ WIDTH) :
    Yields (mulAssign a b) (toNat a * toNat b % 2 ^ (32 * WIDTH)) := by
  have product := (mulAssign_leaves a b wide).yields
  rwa [Limbs.value_mul _ _ (by rw [length_toList, length_toList]), length_toList] at product

theorem shiftLeftAssign_yields (shift : Nat) :
    Yields (shiftLeftAssign a shift) (toNat a * 2 ^ shift % 2 ^ (32 * WIDTH)) := by
  have shifted := (shiftLeftAssign_leaves a shift).yields
  rwa [Limbs.value_shiftLeft _ _ (by decide), length_toList] at shifted

theorem shiftRightAssign_yields (shift : Nat) :
    Yields (shiftRightAssign a shift) (toNat a / 2 ^ shift) := by
  have shifted := (shiftRightAssign_leaves a shift).yields
  rwa [Limbs.value_shiftRight _ _ (by decide)] at shifted

end numbers

/-- The operators compute with the represented numbers modulo 2^BITS, and no access leaves the
arrays. -/
theorem arithmetic_modulo (wide : 2 ≤ WIDTH) (a b : Words WIDTH) :
    Yields (addAssign a b) ((toNat a + toNat b) % 2 ^ (32 * WIDTH)) ∧
    Yields (subAssign a b) (((toNat a : Int) - toNat b) % 2 ^ (32 * WIDTH)).toNat ∧
    Yields (mulAssign a b) (toNat a * toNat b % 2 ^ (32 * WIDTH)) ∧
    (∀ b32 : BitVec 32,
      Yields (mulWordAssign a b32) (toNat a * b32.toNat % 2 ^ (32 * WIDTH))) ∧
    (∀ shift, Yields (shiftLeftAssign a shift) (toNat a * 2 ^ shift % 2 ^ (32 * WIDTH))) ∧
    (∀ shift, Yields (shiftRightAssign a shift) (toNat a / 2 ^ shift)) ∧
    compareTo a b = some (compare (toNat a) (toNat b)) ∧
    equal a b = decide (toNat a = toNat b) ∧
    (toNat b = 0 → divideAssign a b = some none) ∧
    (toNat b ≠ 0 →
      ∃ r, divideAssign a b = some (some r) ∧ toNat r = toNat a / toNat b) :=
  ⟨addAssign_yields a b, subAssign_yields a b, mulAssign_yields a b wide, mulWordAssign_yields a,
    shiftLeftAssign_yields a, shiftRightAssign_yields a, compareTo_eq a b, equal_eq a b,
    divideAssign_zero a b wide, divideAssign_yields a b wide⟩

theorem arithmetic_modulo_uint256 :
    ∃ a b r : Words 8, toNat a = 2 ^ 255 + 7 ∧ toNat b = 2 ^ 64 + 1 ∧
      divideAssign a b = some (some r) ∧ toNat r = (2 ^ 255 + 7) / (2 ^ 64 + 1) := by
  have a : toNat (#v[7, 0, 0, 0, 0, 0, 0, 2147483648] : Words 8) = 2 ^ 255 + 7 := by decide
  have b : toNat (#v[1, 0, 1, 0, 0, 0, 0, 0] : Words 8) = 2 ^ 64 + 1 := by decide
  obtain ⟨r, divided, exact⟩ := (arithmetic_modulo (by decide)
    (#v[7, 0, 0, 0, 0, 0, 0, 2147483648] : Words 8)
    (#v[1, 0, 1, 0, 0, 0, 0, 0] : Words 8)).2.2.2.2.2.2.2.2.2 (by rw [b]; decide)
  rw [a, b] at exact
  exact ⟨_, _, r, a, b, divided, exact⟩

end Words

end CryptoYen
