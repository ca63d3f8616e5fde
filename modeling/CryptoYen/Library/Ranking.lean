import Mathlib.Data.List.Basic
import Mathlib.Order.Lattice
import Mathlib.Tactic.Common

set_option autoImplicit false

namespace Ranking

universe u v

variable {P : Type u} {K : Type v} [LinearOrder K] {less : P → P → Bool} {key : P → K}

def Ranks (less : P → P → Bool) (key : P → K) : Prop :=
  ∀ a b, less a b = true ↔ key a < key b

def last (less : P → P → Bool) : List P → Option P
  | [] => none
  | p :: rest =>
      match last less rest with
      | none => some p
      | some q => if less q p then some p else some q

theorem Ranks.false_iff (ranks : Ranks less key) (a b : P) :
    less a b = false ↔ key b ≤ key a := by
  rw [← Bool.not_eq_true, ranks a b, not_lt]

theorem last_none (members : List P) (empty : last less members = none) : members = [] := by
  cases members with
  | nil => rfl
  | cons p rest =>
      simp only [last] at empty
      split at empty
      · cases empty
      · split at empty <;> cases empty

theorem last_mem (members : List P) (p : P) (found : last less members = some p) :
    p ∈ members := by
  induction members generalizing p with
  | nil => cases found
  | cons first rest ih =>
      simp only [last] at found
      split at found
      next => simp_all
      next q later =>
        split at found
        next => simp_all
        next =>
          cases found
          exact List.mem_cons_of_mem first (ih p later)

theorem last_top (ranks : Ranks less key) (members : List P) (p : P)
    (found : last less members = some p) (other : P) (member : other ∈ members) :
    less p other = false := by
  induction members generalizing p other with
  | nil => cases member
  | cons first rest ih =>
      rw [ranks.false_iff]
      simp only [last] at found
      split at found
      next empty =>
        cases found
        rw [last_none rest empty] at member
        rw [List.mem_singleton.mp member]
      next q later =>
        have below (c : P) (inside : c ∈ rest) : key c ≤ key q :=
          (ranks.false_iff q c).mp (ih q later c inside)
        split at found
        next behind =>
          cases found
          rcases List.mem_cons.mp member with rfl | inside
          · exact le_refl _
          · exact le_trans (below other inside) (le_of_lt ((ranks q first).mp behind))
        next ahead =>
          cases found
          rcases List.mem_cons.mp member with rfl | inside
          · exact (ranks.false_iff p other).mp (Bool.eq_false_iff.mpr ahead)
          · exact below other inside

theorem exists_top (ranks : Ranks less key) (members : List P) (holds : P → Prop)
    (witness : ∃ p ∈ members, holds p) :
    ∃ p ∈ members, holds p ∧ ∀ other ∈ members, holds other → less p other = false := by
  classical
  obtain ⟨p, member, here⟩ := witness
  have inside : p ∈ members.filter fun p => decide (holds p) := by simp [member, here]
  cases found : last less (members.filter fun p => decide (holds p)) with
  | none =>
      rw [last_none _ found] at inside
      cases inside
  | some top =>
      have topMember := last_mem _ _ found
      simp only [List.mem_filter, decide_eq_true_eq] at topMember
      refine ⟨top, topMember.1, topMember.2, ?_⟩
      intro other otherMember otherHolds
      apply last_top ranks _ top found other
      simp [otherMember, otherHolds]

end Ranking
