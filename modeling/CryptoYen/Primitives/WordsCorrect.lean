import CryptoYen.Primitives.Words

set_option autoImplicit false

namespace CryptoYen

namespace Words

open Cells

variable {WIDTH : Nat}

theorem length_toList (a : Words WIDTH) : a.toList.length = WIDTH := Vector.length_toList

theorem toNat_lt (a : Words WIDTH) : toNat a < 2 ^ (32 * WIDTH) := by
  have bound := Limbs.value_lt a.toList
  rwa [length_toList] at bound

def Yields (result : Option (Words WIDTH)) (n : Nat) : Prop :=
  ∃ r, result = some r ∧ toNat r = n

def Leaves (result : Option (Words WIDTH)) (words : List (BitVec 32)) : Prop :=
  ∃ r, result = some r ∧ r.toList = words

theorem Leaves.yields {result : Option (Words WIDTH)} {words : List (BitVec 32)}
    (leaves : Leaves result words) : Yields result (Limbs.value words) := by
  obtain ⟨r, returned, same⟩ := leaves
  exact ⟨r, returned, congrArg Limbs.value same⟩

section sums

theorem addBody_loop (b : Words WIDTH) (carry : Nat) (pn : Words WIDTH)
    (done before olds words : List (BitVec 32)) (split : pn.toList = done ++ olds)
    (other : b.toList = before ++ words) (aligned : done.length = before.length) :
    ∃ left r, loop (addBody b) done.length olds.length (carry, pn) = some (left, r) ∧
      r.toList = done ++ Limbs.addFrom carry olds words := by
  induction olds generalizing carry pn done before words with
  | nil => exact ⟨carry, pn, rfl, by
      rw [split]
      cases words <;> rfl⟩
  | cons old olds ih =>
      have lengths : olds.length + 1 = words.length := by
        have first := congrArg List.length split
        have second := congrArg List.length other
        rw [length_toList, List.length_append] at first second
        rw [List.length_cons] at first
        omega
      cases words with
      | nil => cases lengths
      | cons word words =>
          obtain ⟨next, written, kept⟩ := write_split
            (Limbs.digit (Limbs.wide 32 (carry + old.toNat + word.toNat))) split
          have found := read_split other
          rw [← aligned] at found
          have taken : addBody b done.length (carry, pn) =
              some (Limbs.carried 32 (Limbs.wide 32 (carry + old.toNat + word.toNat)), next) := by
            simp only [addBody, read_split split, found, bind, pure, Option.bind_some, written]
          obtain ⟨left, r, ran, result⟩ := ih
            (Limbs.carried 32 (Limbs.wide 32 (carry + old.toNat + word.toNat))) next
            (done ++ [Limbs.digit (Limbs.wide 32 (carry + old.toNat + word.toNat))])
            (before ++ [word]) words (by rw [kept, List.append_assoc, List.singleton_append])
            (by rw [other, List.append_assoc, List.singleton_append])
            (by rw [List.length_append, List.length_append, aligned]; rfl)
          refine ⟨left, r, ?_, ?_⟩
          · rw [List.length_cons, loop_succ _ _ _ _ _ taken, ← ran, List.length_append]
            rfl
          · rw [result, List.append_assoc, List.singleton_append]
            rfl

theorem addAssign_leaves (a b : Words WIDTH) :
    Leaves (addAssign a b) (Limbs.add a.toList b.toList) := by
  obtain ⟨left, r, ran, result⟩ := addBody_loop b 0 a [] [] a.toList b.toList rfl rfl rfl
  rw [length_toList, List.length_nil] at ran
  exact ⟨r, by rw [addAssign, ran]; rfl, result⟩

theorem incrementFrom_leaves (pn : Words WIDTH) (done olds : List (BitVec 32))
    (split : pn.toList = done ++ olds) :
    Leaves (incrementFrom done.length olds.length pn) (done ++ Limbs.increment olds) := by
  induction olds generalizing pn done with
  | nil => exact ⟨pn, rfl, split⟩
  | cons old olds ih =>
      have length := congrArg List.length split
      rw [length_toList, List.length_append, List.length_cons] at length
      obtain ⟨next, written, kept⟩ := write_split (old + 1) split
      rw [List.length_cons, incrementFrom, Limbs.increment]
      simp only [read_split split, bind, Option.bind_some, written]
      by_cases wraps : old + 1 = 0
      · rw [wraps] at kept
        cases olds with
        | nil =>
            rw [if_neg (fun both => by rw [List.length_nil] at length; omega), if_pos wraps]
            exact ⟨next, rfl, kept⟩
        | cons further olds =>
            obtain ⟨r, ran, result⟩ := ih next (done ++ [0])
              (by rw [kept, List.append_assoc, List.singleton_append])
            rw [List.length_append, List.length_singleton] at ran
            rw [if_pos ⟨wraps, by rw [List.length_cons] at length; omega⟩, if_pos wraps]
            refine ⟨r, ran, ?_⟩
            rw [result, List.append_assoc, List.singleton_append]
      · rw [if_neg (fun both => wraps both.1), if_neg wraps]
        exact ⟨next, rfl, kept⟩

theorem increment_leaves (a : Words WIDTH) : Leaves (increment a) (Limbs.increment a.toList) := by
  have leaves := incrementFrom_leaves a [] a.toList rfl
  rwa [length_toList] at leaves

theorem complement_leaves (a : Words WIDTH) :
    Leaves (complement a) (Limbs.complement a.toList) := by
  obtain ⟨r, ran, result⟩ := loop_invariant
    (fun i (ret : Words WIDTH) => (read a i).bind fun word => write ret i (~~~word))
    (fun i ret => ∀ j (bound : j < WIDTH), j < i → ret[j] = ~~~a[j]) 0 WIDTH
    (by
      intro i ret _ inside kept
      refine ⟨_, by rw [read_eq a i (by omega), Option.bind_some, write_eq ret i _ (by omega)], ?_⟩
      intro j bound below
      rw [Vector.getElem_set]
      split
      next here => simp only [here]
      next apart => exact kept j bound (by omega))
    (Vector.replicate WIDTH 0) (fun j _ below => absurd below (Nat.not_lt_zero j))
  refine ⟨r, ran, List.ext_getElem ?_ fun i here there => ?_⟩
  · rw [length_toList, Limbs.complement_length, length_toList]
  · rw [length_toList] at here
    rw [Vector.getElem_toList, result i here (by omega)]
    simp only [Limbs.complement, List.getElem_map, Vector.getElem_toList]

theorem negate_leaves (a : Words WIDTH) : Leaves (negate a) (Limbs.negate a.toList) := by
  obtain ⟨flipped, first, words⟩ := complement_leaves a
  have second := increment_leaves flipped
  rw [words] at second
  rw [negate, first]
  exact second

theorem subAssign_leaves (a b : Words WIDTH) :
    Leaves (subAssign a b) (Limbs.sub a.toList b.toList) := by
  obtain ⟨minus, first, words⟩ := negate_leaves b
  have second := addAssign_leaves a minus
  rw [words] at second
  rw [subAssign, first]
  exact second

end sums

section products

theorem mulWordBody_loop (b32 : BitVec 32) (carry : Nat) (pn : Words WIDTH)
    (done olds : List (BitVec 32)) (split : pn.toList = done ++ olds) :
    ∃ left r, loop (mulWordBody b32) done.length olds.length (carry, pn) = some (left, r) ∧
      r.toList = done ++ Limbs.mulWordFrom b32 carry olds := by
  induction olds generalizing carry pn done with
  | nil => exact ⟨carry, pn, rfl, split⟩
  | cons old olds ih =>
      obtain ⟨next, written, kept⟩ := write_split
        (Limbs.digit (Limbs.wide 32 (carry + b32.toNat * old.toNat))) split
      have taken : mulWordBody b32 done.length (carry, pn) =
          some (Limbs.carried 32 (Limbs.wide 32 (carry + b32.toNat * old.toNat)), next) := by
        simp only [mulWordBody, read_split split, bind, pure, Option.bind_some, written]
      obtain ⟨left, r, ran, result⟩ := ih
        (Limbs.carried 32 (Limbs.wide 32 (carry + b32.toNat * old.toNat))) next
        (done ++ [Limbs.digit (Limbs.wide 32 (carry + b32.toNat * old.toNat))])
        (by rw [kept, List.append_assoc, List.singleton_append])
      refine ⟨left, r, ?_, ?_⟩
      · rw [List.length_cons, loop_succ _ _ _ _ _ taken, ← ran, List.length_append]
        rfl
      · rw [result, List.append_assoc, List.singleton_append]
        rfl

theorem mulWordAssign_leaves (a : Words WIDTH) (b32 : BitVec 32) :
    Leaves (mulWordAssign a b32) (Limbs.mulWord b32 a.toList) := by
  obtain ⟨left, r, ran, result⟩ := mulWordBody_loop b32 0 a [] a.toList rfl
  rw [length_toList, List.length_nil] at ran
  exact ⟨r, by rw [mulWordAssign, ran]; rfl, result⟩

theorem mulRowBody_loop (a b : Words WIDTH) (j : Nat) (factor : BitVec 32)
    (found : read a j = some factor) (carry : Nat) (pn : Words WIDTH)
    (done before olds limbs : List (BitVec 32)) (split : pn.toList = done ++ olds)
    (other : b.toList = before ++ limbs) (aligned : done.length = before.length + j) :
    ∃ left r, loop (mulRowBody a b j) before.length olds.length (carry, pn) = some (left, r) ∧
      r.toList = done ++ Limbs.mulRow factor carry olds limbs := by
  induction olds generalizing carry pn done before limbs with
  | nil =>
      refine ⟨carry, pn, rfl, ?_⟩
      rw [split]
      cases limbs <;> rfl
  | cons old olds ih =>
      have lengths : olds.length + 1 ≤ limbs.length := by
        have first := congrArg List.length split
        have second := congrArg List.length other
        rw [length_toList, List.length_append] at first second
        rw [List.length_cons] at first
        omega
      cases limbs with
      | nil => cases lengths
      | cons limb limbs =>
          obtain ⟨next, written, kept⟩ := write_split
            (Limbs.digit (Limbs.wide 32 (carry + old.toNat + factor.toNat * limb.toNat))) split
          have here := read_split split
          rw [aligned] at here written
          have taken : mulRowBody a b j before.length (carry, pn) =
              some (Limbs.carried 32 (Limbs.wide 32
                (carry + old.toNat + factor.toNat * limb.toNat)), next) := by
            simp only [mulRowBody, here, found, read_split other, bind, pure, Option.bind_some,
              written]
          obtain ⟨left, r, ran, result⟩ := ih
            (Limbs.carried 32 (Limbs.wide 32 (carry + old.toNat + factor.toNat * limb.toNat))) next
            (done ++ [Limbs.digit (Limbs.wide 32 (carry + old.toNat + factor.toNat * limb.toNat))])
            (before ++ [limb]) limbs (by rw [kept, List.append_assoc, List.singleton_append])
            (by rw [other, List.append_assoc, List.singleton_append])
            (by
              rw [List.length_append, List.length_append, aligned, List.length_singleton,
                List.length_singleton]
              omega)
          refine ⟨left, r, ?_, ?_⟩
          · rw [List.length_cons, loop_succ _ _ _ _ _ taken, ← ran, List.length_append]
            rfl
          · rw [result, List.append_assoc, List.singleton_append]
            rfl

theorem mulRows_loop (a b : Words WIDTH) (pn : Words WIDTH)
    (done before factors olds : List (BitVec 32)) (split : pn.toList = done ++ olds)
    (other : a.toList = before ++ factors) (aligned : done.length = before.length) :
    Leaves (loop (fun j pn => (loop (mulRowBody a b j) 0 (WIDTH - j) (0, pn)).map Prod.snd)
      done.length factors.length pn) (done ++ Limbs.mulRows factors b.toList olds) := by
  induction factors generalizing pn done before olds with
  | nil => exact ⟨pn, rfl, by rw [split]; rfl⟩
  | cons factor factors ih =>
      have first := congrArg List.length split
      have second := congrArg List.length other
      rw [length_toList, List.length_append] at first second
      rw [List.length_cons] at second
      have rows : WIDTH - done.length = olds.length := by omega
      have found := read_split other
      rw [← aligned] at found
      obtain ⟨left, next, ran, kept⟩ := mulRowBody_loop a b done.length factor found 0 pn done []
        olds b.toList split rfl (by rw [List.length_nil, Nat.zero_add])
      rw [List.length_nil, ← rows] at ran
      have same := Limbs.mulRow_length factor 0 olds b.toList (by rw [length_toList]; omega)
      rw [Limbs.mulRows]
      cases row : Limbs.mulRow factor 0 olds b.toList with
      | nil =>
          rw [row, List.length_nil] at same
          omega
      | cons low high =>
          rw [row] at kept
          obtain ⟨r, later, result⟩ := ih next (done ++ [low]) (before ++ [factor]) high
            (by rw [kept, List.append_assoc, List.singleton_append])
            (by rw [other, List.append_assoc, List.singleton_append])
            (by rw [List.length_append, List.length_append, aligned]; rfl)
          refine ⟨r, ?_, by rw [result, List.append_assoc, List.singleton_append]⟩
          rw [List.length_cons, loop_succ _ _ _ _ next (by rw [ran]; rfl), ← later,
            List.length_append]
          rfl

theorem assign_zero (a : Words WIDTH) (wide : 2 ≤ WIDTH) :
    assign a 0 = some (Vector.replicate WIDTH 0) := by
  obtain ⟨r, ran, result⟩ := loop_write (fun _ => (0 : BitVec 32)) 2 (WIDTH - 2)
    ((a.set 0 0).set 1 0) (by omega)
  have zeros : r = Vector.replicate WIDTH 0 := by
    apply Vector.ext
    intro i bound
    rw [result i bound, Vector.getElem_replicate, Vector.getElem_set, Vector.getElem_set]
    split_ifs <;> first | rfl | omega
  rw [assign]
  simp only [bind, write_eq _ 0 _ (show 0 < WIDTH by omega),
    write_eq _ 1 _ (show 1 < WIDTH by omega), Option.bind_some]
  rw [← zeros]
  exact ran

theorem mulAssign_leaves (a b : Words WIDTH) (wide : 2 ≤ WIDTH) :
    Leaves (mulAssign a b) (Limbs.mul a.toList b.toList) := by
  have zeros : (Vector.replicate WIDTH (0 : BitVec 32)).toList = a.toList.map fun _ => 0 := by
    rw [List.map_const', length_toList, Vector.toList_replicate]
  obtain ⟨r, ran, result⟩ := mulRows_loop a b (Vector.replicate WIDTH 0) [] [] a.toList
    (a.toList.map fun _ => 0) zeros rfl rfl
  rw [length_toList, List.length_nil] at ran
  refine ⟨r, ?_, result⟩
  rw [mulAssign, assign_zero a wide]
  exact ran

end products

section shifts

theorem clear_eq (a : Words WIDTH) : clear a = some (Vector.replicate WIDTH 0) := by
  obtain ⟨r, ran, result⟩ := loop_write (fun _ => (0 : BitVec 32)) 0 WIDTH a (by omega)
  have zeros : r = Vector.replicate WIDTH 0 := by
    apply Vector.ext
    intro i bound
    rw [result i bound, Vector.getElem_replicate, if_pos (by omega)]
  rw [clear, ran, zeros]

theorem zero_or (word : BitVec 32) : 0 ||| word = word := BitVec.zero_or

theorem or_zero (word : BitVec 32) : word ||| 0 = word := BitVec.or_zero

theorem orFrom_if (a : Words WIDTH) (word : BitVec 32 → BitVec 32) (i : Nat) (source : i < WIDTH)
    (holds : Prop) [Decidable holds] (target : Nat) (pn : Words WIDTH)
    (inside : holds → target < WIDTH) :
    ∃ next, (if holds then orFrom a word i target pn else some pn) = some next ∧
      ∀ j (bound : j < WIDTH), next[j] =
        if holds ∧ target = j then pn[j] ||| word (a.toList.getD i 0) else pn[j] := by
  have found : a.toList.getD i 0 = a[i] := by
    rw [List.getD_eq_getElem?_getD, Vector.getElem?_toList, Vector.getElem?_eq_getElem source,
      Option.getD_some]
  rw [found]
  by_cases yes : holds
  · refine ⟨_, by rw [if_pos yes, orFrom, read_eq a i source, Option.bind_some,
      update_eq _ target pn (inside yes)], fun j bound => ?_⟩
    rw [Vector.getElem_set]
    by_cases same : target = j
    · subst same
      rw [if_pos rfl, if_pos ⟨yes, rfl⟩]
    · rw [if_neg same, if_neg (fun both => same both.2)]
  · exact ⟨pn, if_neg yes, fun j bound => (if_neg (fun both => yes both.1)).symm⟩

section left

variable (a : Words WIDTH) (k shift : Nat)

def leftWord (i j : Nat) : BitVec 32 :=
  (if k ≤ j ∧ j < k + i then a.toList.getD (j - k) 0 <<< shift else 0) |||
    if k + 1 ≤ j ∧ j < k + 1 + i ∧ shift ≠ 0 then a.toList.getD (j - k - 1) 0 >>> (32 - shift) else 0

theorem leftWord_succ (i j : Nat) :
    leftWord a k shift (i + 1) j =
      if i + k = j then leftWord a k shift i j ||| a.toList.getD i 0 <<< shift
      else if i + k + 1 = j ∧ shift ≠ 0 then
        leftWord a k shift i j ||| a.toList.getD i 0 >>> (32 - shift)
      else leftWord a k shift i j := by
  unfold leftWord
  by_cases here : i + k = j
  · subst here
    have before : ¬ (k ≤ i + k ∧ i + k < k + i) := by omega
    have after : k ≤ i + k ∧ i + k < k + (i + 1) := by omega
    have same : (k + 1 ≤ i + k ∧ i + k < k + 1 + (i + 1) ∧ shift ≠ 0) ↔
        (k + 1 ≤ i + k ∧ i + k < k + 1 + i ∧ shift ≠ 0) := by omega
    simp only [if_neg before, if_pos after, same, ↓reduceIte, Nat.add_sub_cancel, zero_or,
      BitVec.or_comm]
  · rw [if_neg here]
    have first : (k ≤ j ∧ j < k + (i + 1)) ↔ (k ≤ j ∧ j < k + i) := by omega
    by_cases above : i + k + 1 = j ∧ shift ≠ 0
    · obtain ⟨rfl, moved⟩ := above
      have before : ¬ (k + 1 ≤ i + k + 1 ∧ i + k + 1 < k + 1 + i ∧ shift ≠ 0) := by omega
      have after : k + 1 ≤ i + k + 1 ∧ i + k + 1 < k + 1 + (i + 1) ∧ shift ≠ 0 := by omega
      have high : ¬ (k ≤ i + k + 1 ∧ i + k + 1 < k + i) := by omega
      rw [if_pos (show i + k + 1 = i + k + 1 ∧ shift ≠ 0 from ⟨rfl, moved⟩), if_neg before,
        if_pos after]
      simp only [first, if_neg high, zero_or, show i + k + 1 - k - 1 = i by omega]
    · have second : (k + 1 ≤ j ∧ j < k + 1 + (i + 1) ∧ shift ≠ 0) ↔
          (k + 1 ≤ j ∧ j < k + 1 + i ∧ shift ≠ 0) := by omega
      rw [if_neg above]
      simp only [first, second]

theorem shiftLeftBody_step (i : Nat) (pn : Words WIDTH) (inside : i < WIDTH)
    (kept : ∀ j (bound : j < WIDTH), pn[j] = leftWord a k shift i j) :
    ∃ next, shiftLeftBody a k shift i pn = some next ∧
      ∀ j (bound : j < WIDTH), next[j] = leftWord a k shift (i + 1) j := by
  obtain ⟨mid, first, upper⟩ := orFrom_if a (· >>> (32 - shift)) i inside
    (i + k + 1 < WIDTH ∧ shift ≠ 0) (i + k + 1) pn fun both => both.1
  obtain ⟨next, second, lower⟩ := orFrom_if a (· <<< shift) i inside (i + k < WIDTH) (i + k) mid id
  refine ⟨next, ?_, fun j bound => ?_⟩
  · rw [shiftLeftBody, first, Option.bind_some]
    exact second
  · rw [lower j bound, upper j bound, kept j bound, leftWord_succ]
    by_cases here : i + k = j
    · have apart : ¬ ((i + k + 1 < WIDTH ∧ shift ≠ 0) ∧ i + k + 1 = j) := by omega
      rw [if_pos here, if_pos ⟨by omega, here⟩, if_neg apart]
    · rw [if_neg here, if_neg (fun both => here both.2)]
      exact if_congr (by omega) rfl rfl

end left

theorem shiftLeftAssign_leaves (a : Words WIDTH) (shift : Nat) :
    Leaves (shiftLeftAssign a shift) (Limbs.shiftLeft a.toList shift) := by
  obtain ⟨r, ran, result⟩ := loop_invariant (shiftLeftBody a (shift / 32) (shift % 32))
    (fun i pn => ∀ j (bound : j < WIDTH), pn[j] = leftWord a (shift / 32) (shift % 32) i j) 0 WIDTH
    (fun i pn _ inside kept =>
      shiftLeftBody_step a (shift / 32) (shift % 32) i pn (by omega) kept)
    (Vector.replicate WIDTH 0) (by
      intro j bound
      have low : ¬ (shift / 32 ≤ j ∧ j < shift / 32 + 0) := by omega
      have high : ¬ (shift / 32 + 1 ≤ j ∧ j < shift / 32 + 1 + 0 ∧ shift % 32 ≠ 0) := by omega
      rw [Vector.getElem_replicate, leftWord, if_neg low, if_neg high]
      rfl)
  refine ⟨r, by rw [shiftLeftAssign, clear_eq]; exact ran, List.ext_getElem ?_ fun j here there => ?_⟩
  · rw [length_toList, Limbs.shiftLeft_length, length_toList]
  · rw [length_toList] at here
    rw [Vector.getElem_toList, result j here]
    simp only [Limbs.shiftLeft, Limbs.tabulate, List.getElem_map, List.getElem_range, leftWord]
    congr 1
    · exact if_congr (by omega) rfl rfl
    · exact if_congr (by omega) rfl rfl

section right

variable (a : Words WIDTH) (k shift : Nat)

def rightWord (i j : Nat) : BitVec 32 :=
  (if j + k < i then a.toList.getD (j + k) 0 >>> shift else 0) |||
    if j + k + 1 < i ∧ shift ≠ 0 then a.toList.getD (j + k + 1) 0 <<< (32 - shift) else 0

theorem rightWord_succ (i j : Nat) :
    rightWord a k shift (i + 1) j =
      if j + k = i then rightWord a k shift i j ||| a.toList.getD i 0 >>> shift
      else if j + k + 1 = i ∧ shift ≠ 0 then
        rightWord a k shift i j ||| a.toList.getD i 0 <<< (32 - shift)
      else rightWord a k shift i j := by
  unfold rightWord
  by_cases here : j + k = i
  · subst here
    have low : ¬ j + k < j + k := by omega
    have high : ¬ (j + k + 1 < j + k ∧ shift ≠ 0) := by omega
    have last : ¬ (j + k + 1 < j + k + 1 ∧ shift ≠ 0) := by omega
    rw [if_pos rfl, if_neg low, if_neg high, if_pos (Nat.lt_succ_self _), if_neg last]
    simp only [or_zero, zero_or]
  · rw [if_neg here]
    have first : j + k < i + 1 ↔ j + k < i := by omega
    by_cases below : j + k + 1 = i ∧ shift ≠ 0
    · obtain ⟨rfl, moved⟩ := below
      have before : ¬ (j + k + 1 < j + k + 1 ∧ shift ≠ 0) := by omega
      have after : j + k + 1 < j + k + 1 + 1 ∧ shift ≠ 0 := by omega
      rw [if_pos (show j + k + 1 = j + k + 1 ∧ shift ≠ 0 from ⟨rfl, moved⟩), if_neg before,
        if_pos after]
      simp only [first, or_zero]
    · have second : (j + k + 1 < i + 1 ∧ shift ≠ 0) ↔ (j + k + 1 < i ∧ shift ≠ 0) := by omega
      rw [if_neg below]
      simp only [first, second]

theorem shiftRightBody_step (i : Nat) (pn : Words WIDTH) (inside : i < WIDTH)
    (kept : ∀ j (bound : j < WIDTH), pn[j] = rightWord a k shift i j) :
    ∃ next, shiftRightBody a k shift i pn = some next ∧
      ∀ j (bound : j < WIDTH), next[j] = rightWord a k shift (i + 1) j := by
  obtain ⟨mid, first, upper⟩ := orFrom_if a (· <<< (32 - shift)) i inside
    (k + 1 ≤ i ∧ shift ≠ 0) (i - k - 1) pn fun both => by omega
  obtain ⟨next, second, lower⟩ := orFrom_if a (· >>> shift) i inside (k ≤ i) (i - k) mid
    fun _ => by omega
  refine ⟨next, ?_, fun j bound => ?_⟩
  · rw [shiftRightBody, first, Option.bind_some]
    exact second
  · rw [lower j bound, upper j bound, kept j bound, rightWord_succ]
    by_cases here : j + k = i
    · have apart : ¬ ((k + 1 ≤ i ∧ shift ≠ 0) ∧ i - k - 1 = j) := by omega
      rw [if_pos here, if_pos ⟨by omega, by omega⟩, if_neg apart]
    · rw [if_neg here, if_neg (fun both => here (by omega))]
      exact if_congr (by omega) rfl rfl

end right

theorem shiftRightAssign_leaves (a : Words WIDTH) (shift : Nat) :
    Leaves (shiftRightAssign a shift) (Limbs.shiftRight a.toList shift) := by
  obtain ⟨r, ran, result⟩ := loop_invariant (shiftRightBody a (shift / 32) (shift % 32))
    (fun i pn => ∀ j (bound : j < WIDTH), pn[j] = rightWord a (shift / 32) (shift % 32) i j) 0 WIDTH
    (fun i pn _ inside kept =>
      shiftRightBody_step a (shift / 32) (shift % 32) i pn (by omega) kept)
    (Vector.replicate WIDTH 0) (by
      intro j bound
      have low : ¬ j + shift / 32 < 0 := by omega
      have high : ¬ (j + shift / 32 + 1 < 0 ∧ shift % 32 ≠ 0) := by omega
      rw [Vector.getElem_replicate, rightWord, if_neg low, if_neg high]
      rfl)
  refine ⟨r, by rw [shiftRightAssign, clear_eq]; exact ran, List.ext_getElem ?_ fun j here there => ?_⟩
  · rw [length_toList, Limbs.shiftRight_length, length_toList]
  · rw [length_toList] at here
    have outside (i : Nat) (beyond : ¬ i < WIDTH) : a.toList.getD i 0 = 0 :=
      List.getD_eq_default _ _ (by rw [length_toList]; omega)
    rw [Vector.getElem_toList, result j here]
    simp only [Limbs.shiftRight, Limbs.tabulate, List.getElem_map, List.getElem_range, rightWord,
      Nat.zero_add]
    congr 1
    · split
      next => rfl
      next beyond =>
        rw [outside _ beyond]
        exact BitVec.zero_ushiftRight.symm
    · by_cases inside : j + shift / 32 + 1 < WIDTH
      · exact if_congr (and_iff_right inside) rfl rfl
      · rw [if_neg (fun both => inside both.1), outside _ inside]
        split
        next => exact (BitVec.zero_shiftLeft _).symm
        next => rfl

end shifts

end Words

end CryptoYen
