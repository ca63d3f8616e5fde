import Mathlib.Data.Finset.Insert
import Mathlib.Data.Finset.Basic
import CryptoYen.Library.Assoc

set_option autoImplicit false

namespace InverseIndex

universe u v

variable {K : Type u} {A : Type v} [DecidableEq K] [DecidableEq A]

def add (index : AList fun _ : K => Finset A) (key : K) (a : A) : AList fun _ : K => Finset A :=
  index.insert key (insert a ((index.lookup key).getD ∅))

def remove (index : AList fun _ : K => Finset A) (key : K) (a : A) : AList fun _ : K => Finset A :=
  match index.lookup key with
  | none => index
  | some set => if set.erase a = ∅ then index.erase key else index.insert key (set.erase a)

def Holds (index : AList fun _ : K => Finset A) (key : K) (a : A) : Prop :=
  ∃ set, index.lookup key = some set ∧ a ∈ set

def Tidy (index : AList fun _ : K => Finset A) : Prop :=
  ∀ key set, index.lookup key = some set → set.Nonempty

variable (index : AList fun _ : K => Finset A) (key other : K) (a b : A)

theorem holds_add : Holds (add index key a) other b ↔ (other = key ∧ b = a) ∨ Holds index other b := by
  simp only [Holds, add, Assoc.lookup_insert]
  by_cases same : other = key
  next =>
    subst same
    cases index.lookup other with
    | none => simp
    | some set => simp
  next => simp [same]

theorem holds_remove :
    Holds (remove index key a) other b ↔ Holds index other b ∧ ¬ (other = key ∧ b = a) := by
  unfold remove
  cases known : index.lookup key with
  | none =>
      have absent : other = key → ¬ Holds index other b := by
        intro same ⟨set, present, _⟩
        rw [same, known] at present
        cases present
      simp only
      tauto
  | some set =>
      by_cases same : other = key
      next =>
        subst same
        simp only [Holds, known, Option.some.injEq, true_and, exists_eq_left']
        split
        next gone =>
          have alone : b ∈ set → b = a := by
            intro member
            by_contra differs
            have left := Finset.mem_erase.mpr ⟨differs, member⟩
            rw [gone] at left
            cases left
          simp only [AList.lookup_erase, reduceCtorEq, false_and, exists_false, false_iff]
          tauto
        next => simp [and_comm]
      next =>
        simp only [Holds]
        split
        next => simp [AList.lookup_erase_ne same, same]
        next => simp [AList.lookup_insert_ne same, same]

theorem tidy_add (tidy : Tidy index) : Tidy (add index key a) := by
  intro other set present
  rw [add, Assoc.lookup_insert] at present
  split at present
  next =>
    cases present
    exact Finset.insert_nonempty a _
  next => exact tidy other set present

theorem tidy_remove (tidy : Tidy index) : Tidy (remove index key a) := by
  unfold remove
  cases known : index.lookup key with
  | none => exact tidy
  | some set =>
      intro other left present
      simp only at present
      split at present
      next =>
        rw [Assoc.lookup_erase] at present
        split at present
        next => cases present
        next => exact tidy other left present
      next remains =>
        rw [Assoc.lookup_insert] at present
        split at present
        next =>
          cases present
          exact Finset.nonempty_iff_ne_empty.mpr remains
        next => exact tidy other left present

def addAll (keys : List K) : AList fun _ : K => Finset A :=
  keys.foldl (fun index key => add index key a) index

def removeAll (keys : List K) : AList fun _ : K => Finset A :=
  keys.foldl (fun index key => remove index key a) index

theorem holds_addAll (keys : List K) :
    Holds (addAll index a keys) other b ↔ (other ∈ keys ∧ b = a) ∨ Holds index other b := by
  induction keys generalizing index with
  | nil => simp [addAll]
  | cons key rest ih =>
      have step := ih (add index key a)
      rw [addAll] at step
      rw [addAll, List.foldl_cons, step, holds_add, List.mem_cons]
      tauto

theorem holds_removeAll (keys : List K) :
    Holds (removeAll index a keys) other b ↔ Holds index other b ∧ ¬ (other ∈ keys ∧ b = a) := by
  induction keys generalizing index with
  | nil => simp [removeAll]
  | cons key rest ih =>
      have step := ih (remove index key a)
      rw [removeAll] at step
      rw [removeAll, List.foldl_cons, step, holds_remove, List.mem_cons]
      tauto

theorem tidy_addAll (keys : List K) (tidy : Tidy index) : Tidy (addAll index a keys) :=
  List.foldlRecOn keys _ tidy fun index tidy key _ => tidy_add index key a tidy

theorem tidy_removeAll (keys : List K) (tidy : Tidy index) : Tidy (removeAll index a keys) :=
  List.foldlRecOn keys _ tidy fun index tidy key _ => tidy_remove index key a tidy

end InverseIndex
