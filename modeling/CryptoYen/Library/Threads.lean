import Mathlib.Algebra.BigOperators.Group.Finset.Basic
import Mathlib.Algebra.Order.BigOperators.Group.Finset
import Mathlib.Algebra.Ring.Int.Defs
import Mathlib.Algebra.Ring.Nat
import Mathlib.Data.Fintype.Basic

set_option autoImplicit false

/-! What a finite number of threads holds together, while one of them takes a step. -/

namespace Threads

open Finset

variable {I A M : Type} [Fintype I] [DecidableEq I]

def total [AddCommMonoid M] (held : A → M) (threads : I → A) : M := ∑ i, held (threads i)

theorem total_split [AddCommMonoid M] (held : A → M) (threads : I → A) (i : I) :
    total held threads = held (threads i) + ∑ j ∈ univ.erase i, held (threads j) :=
  (add_sum_erase univ (fun j => held (threads j)) (mem_univ i)).symm

theorem total_update [AddCommMonoid M] (held : A → M) (threads : I → A) (i : I) (a : A) :
    total held (Function.update threads i a) + held (threads i) =
      total held threads + held a := by
  have others : ∑ j ∈ univ.erase i, held (Function.update threads i a j) =
      ∑ j ∈ univ.erase i, held (threads j) := by
    refine sum_congr rfl fun j other => ?_
    rw [Function.update_of_ne (ne_of_mem_erase other)]
  rw [total_split held (Function.update threads i a) i, total_split held threads i, others,
    Function.update_self, add_comm (held a), add_comm (held (threads i)), add_right_comm]

omit [DecidableEq I] in
theorem total_zero [AddCommMonoid M] (held : A → M) (threads : I → A)
    (none : ∀ i, held (threads i) = 0) : total held threads = 0 :=
  sum_eq_zero fun i _ => none i

omit [DecidableEq I] in
theorem held_le_total (held : A → Nat) (threads : I → A) (i : I) :
    held (threads i) ≤ total held threads :=
  single_le_sum (f := fun j => held (threads j)) (fun _ _ => Nat.zero_le _) (mem_univ i)

omit [DecidableEq I] in
theorem exists_holder (held : A → Nat) (threads : I → A) (some_held : total held threads ≠ 0) :
    ∃ i, held (threads i) ≠ 0 := by
  by_contra none
  push Not at none
  exact some_held (total_zero held threads none)

end Threads
