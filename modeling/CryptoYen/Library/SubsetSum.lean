import Mathlib.Algebra.BigOperators.Group.List.Basic
import Mathlib.Data.List.Perm.Subperm

set_option autoImplicit false

/-! Subsets of a list by flags: their total, and how it changes when a flag does. -/

namespace SubsetSum

variable {A M : Type} [AddCommMonoid M]

def selectedSum : List M → List Bool → M
  | value :: values, flag :: flags => (if flag then value else 0) + selectedSum values flags
  | _, _ => 0

def selected : List A → List Bool → List A
  | item :: items, flag :: flags =>
      if flag then item :: selected items flags else selected items flags
  | _, _ => []

theorem selected_sublist (items : List A) (flags : List Bool) :
    (selected items flags).Sublist items := by
  induction items generalizing flags with
  | nil => cases flags <;> exact List.Sublist.refl []
  | cons item items ih =>
      cases flags with
      | nil => exact List.nil_sublist _
      | cons flag flags =>
          rw [selected]
          split
          · exact (ih flags).cons_cons item
          · exact (ih flags).cons item

theorem selectedSum_selected (value : A → M) (items : List A) (flags : List Bool) :
    selectedSum (items.map value) flags = ((selected items flags).map value).sum := by
  induction items generalizing flags with
  | nil => cases flags <;> rfl
  | cons item items ih =>
      cases flags with
      | nil => rfl
      | cons flag flags =>
          rw [List.map_cons, selectedSum, selected, ih]
          cases flag with
          | false => exact zero_add _
          | true => rw [if_pos rfl, if_pos rfl, List.map_cons, List.sum_cons]

theorem selectedSum_replicate_true (values : List M) :
    selectedSum values (List.replicate values.length true) = values.sum := by
  induction values with
  | nil => rfl
  | cons value values ih =>
      rw [List.length_cons, List.replicate_succ, selectedSum, ih, if_pos rfl, List.sum_cons]

theorem selectedSum_replicate_false (values : List M) (n : Nat) :
    selectedSum values (List.replicate n false) = 0 := by
  induction values generalizing n with
  | nil => cases n <;> rfl
  | cons value values ih =>
      cases n with
      | zero => rfl
      | succ n => rw [List.replicate_succ, selectedSum, ih, if_neg Bool.false_ne_true, zero_add]

theorem selectedSum_set (values : List M) (flags : List Bool) (i : Nat) (value : M)
    (here : values[i]? = some value) (off : flags[i]? = some false) :
    selectedSum values (flags.set i true) = selectedSum values flags + value := by
  induction values generalizing flags i with
  | nil => cases here
  | cons first values ih =>
      cases flags with
      | nil => cases off
      | cons flag flags =>
          cases i with
          | zero =>
              cases here
              cases off
              rw [List.set_cons_zero, selectedSum, selectedSum, if_pos rfl,
                if_neg Bool.false_ne_true, zero_add, add_comm]
          | succ i =>
              rw [List.set_cons_succ, selectedSum, selectedSum, ih flags i here off, add_assoc]

theorem set_back (flags : List Bool) (i : Nat) (off : flags[i]? = some false) :
    (flags.set i true).set i false = flags := by
  rw [List.set_set]
  refine List.ext_getElem? fun j => ?_
  rw [List.getElem?_set]
  split
  next same =>
    subst same
    rw [off]
    split
    · rfl
    next short =>
      rw [List.getElem?_eq_none (Nat.le_of_not_lt short)] at off
      cases off
  next => rfl

end SubsetSum
