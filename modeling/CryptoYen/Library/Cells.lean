import Mathlib.Tactic.Common

set_option autoImplicit false

/-! Arrays of a fixed length whose accesses are checked, and counted loops over them; none is an
access out of range. -/

namespace Cells

variable {A S : Type} {n : Nat}

def read (cells : Vector A n) (i : Nat) : Option A := cells[i]?

def write (cells : Vector A n) (i : Nat) (value : A) : Option (Vector A n) :=
  if inside : i < n then some (cells.set i value inside) else none

def update (change : A → A) (i : Nat) (cells : Vector A n) : Option (Vector A n) :=
  (read cells i).bind fun old => write cells i (change old)

def loop (body : Nat → S → Option S) : Nat → Nat → S → Option S
  | _, 0, s => some s
  | i, count + 1, s => (body i s).bind (loop body (i + 1) count)

theorem read_eq (cells : Vector A n) (i : Nat) (inside : i < n) :
    read cells i = some cells[i] := by
  rw [read, Vector.getElem?_eq_getElem inside]

theorem write_eq (cells : Vector A n) (i : Nat) (value : A) (inside : i < n) :
    write cells i value = some (cells.set i value inside) := dif_pos inside

theorem update_eq (change : A → A) (i : Nat) (cells : Vector A n) (inside : i < n) :
    update change i cells = some (cells.set i (change cells[i]) inside) := by
  rw [update, read_eq cells i inside, Option.bind_some, write_eq cells i _ inside]

/-! What stands behind the cells that are done. -/

section split

variable {cells : Vector A n} {done rest : List A} {old : A}

theorem read_split (split : cells.toList = done ++ old :: rest) :
    read cells done.length = some old := by
  rw [read, ← Vector.getElem?_toList, split, List.getElem?_append_right (Nat.le_refl _),
    Nat.sub_self, List.getElem?_cons_zero]

theorem write_split (value : A) (split : cells.toList = done ++ old :: rest) :
    ∃ next, write cells done.length value = some next ∧ next.toList = done ++ value :: rest := by
  have length := congrArg List.length split
  rw [Vector.length_toList, List.length_append, List.length_cons] at length
  refine ⟨_, write_eq cells done.length value (by omega), ?_⟩
  rw [Vector.toList_set, split, List.set_append_right _ _ (Nat.le_refl _), Nat.sub_self,
    List.set_cons_zero]

end split

theorem loop_succ (body : Nat → S → Option S) (i count : Nat) (s next : S)
    (taken : body i s = some next) :
    loop body i (count + 1) s = loop body (i + 1) count next := by
  rw [loop, taken, Option.bind_some]

theorem loop_invariant (body : Nat → S → Option S) (inv : Nat → S → Prop) (start count : Nat)
    (keeps : ∀ i s, start ≤ i → i < start + count → inv i s →
      ∃ next, body i s = some next ∧ inv (i + 1) next)
    (s : S) (first : inv start s) :
    ∃ final, loop body start count s = some final ∧ inv (start + count) final := by
  induction count generalizing start s with
  | zero => exact ⟨s, rfl, first⟩
  | succ count ih =>
      obtain ⟨next, taken, kept⟩ := keeps start s (Nat.le_refl _) (by omega) first
      obtain ⟨final, ran, last⟩ := ih (start + 1)
        (fun i s low high => keeps i s (by omega) (by omega)) next kept
      refine ⟨final, by rw [loop_succ body start count s next taken, ran], ?_⟩
      rwa [Nat.add_right_comm, Nat.add_assoc] at last

theorem loop_write (value : Nat → A) (start count : Nat) (cells : Vector A n)
    (inside : start + count ≤ n) :
    ∃ final : Vector A n, loop (fun i cells => write cells i (value i)) start count cells = some final ∧
      ∀ i (bound : i < n), final[i] =
        if start ≤ i ∧ i < start + count then value i else cells[i] := by
  have ended := loop_invariant (fun i cells => write cells i (value i))
    (fun i (now : Vector A n) => ∀ j (bound : j < n), now[j] =
      if start ≤ j ∧ j < i then value j else cells[j]) start count (by
      intro i now low high kept
      refine ⟨_, write_eq now i (value i) (by omega), fun j bound => ?_⟩
      rw [Vector.getElem_set, kept j bound]
      by_cases same : i = j
      · subst same
        rw [if_pos rfl, if_pos ⟨low, Nat.lt_succ_self i⟩]
      · rw [if_neg same]
        exact if_congr (by omega) rfl rfl) cells (by
      intro j bound
      exact (if_neg (by omega)).symm)
  exact ended

end Cells
