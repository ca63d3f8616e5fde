import Mathlib.Data.List.Basic
import Mathlib.Data.Nat.Find
import Mathlib.Tactic.Common

set_option autoImplicit false

namespace Search

universe u

variable {A : Type u} (goesOn : Nat → Bool) (attempt : Nat → Option A)

/-- Attempts in order, from `i` on, until one succeeds, the rounds are used up or the search does
not go on. -/
def scan : Nat → Nat → Option A
  | 0, _ => none
  | rounds + 1, i =>
      if goesOn i then
        match attempt i with
        | some found => some found
        | none => scan rounds (i + 1)
      else none

structure FirstHit (rounds i k : Nat) (found : A) : Prop where
  lower : i ≤ k
  upper : k < i + rounds
  goes : ∀ j, i ≤ j → j ≤ k → goesOn j = true
  before : ∀ j, i ≤ j → j < k → attempt j = none
  hit : attempt k = some found

def Reached (rounds i : Nat) : Prop := i < rounds ∧ ∀ j ≤ i, goesOn j = true

variable {goesOn attempt}

theorem FirstHit.later {rounds i k : Nat} {found : A} (missed : attempt i = none)
    (on : goesOn i = true) (first : FirstHit goesOn attempt rounds (i + 1) k found) :
    FirstHit goesOn attempt (rounds + 1) i k found where
  lower := Nat.le_of_succ_le first.lower
  upper := by
    have upper := first.upper
    omega
  goes j le := by
    rcases Nat.eq_or_lt_of_le le with rfl | after
    · exact fun _ => on
    · exact first.goes j after
  before j le := by
    rcases Nat.eq_or_lt_of_le le with rfl | after
    · exact fun _ => missed
    · exact first.before j after
  hit := first.hit

theorem FirstHit.next {rounds i k : Nat} {found : A} (missed : attempt i = none)
    (first : FirstHit goesOn attempt (rounds + 1) i k found) :
    FirstHit goesOn attempt rounds (i + 1) k found where
  lower := by
    rcases Nat.eq_or_lt_of_le first.lower with rfl | after
    · have hit := first.hit
      rw [missed] at hit
      cases hit
    · exact after
  upper := by
    have upper := first.upper
    omega
  goes j le := first.goes j (Nat.le_of_succ_le le)
  before j le := first.before j (Nat.le_of_succ_le le)
  hit := first.hit

theorem scan_firstHit (rounds i : Nat) (found : A)
    (scanned : scan goesOn attempt rounds i = some found) :
    ∃ k, FirstHit goesOn attempt rounds i k found := by
  induction rounds generalizing i with
  | zero => cases scanned
  | succ rounds ih =>
      simp only [scan] at scanned
      split at scanned
      next on =>
        split at scanned
        next first here =>
          cases scanned
          refine ⟨i, Nat.le_refl i, by omega, ?_, ?_, here⟩
          · intro j le ge
            rwa [Nat.le_antisymm ge le]
          · intro j le lt
            omega
        next missed =>
          obtain ⟨k, first⟩ := ih (i + 1) scanned
          exact ⟨k, first.later missed on⟩
      next => cases scanned

theorem FirstHit.scan_eq {rounds i k : Nat} {found : A}
    (first : FirstHit goesOn attempt rounds i k found) :
    scan goesOn attempt rounds i = some found := by
  induction rounds generalizing i with
  | zero =>
      have bounds := Nat.lt_of_le_of_lt first.lower first.upper
      omega
  | succ rounds ih =>
      simp only [scan, first.goes i (Nat.le_refl i) first.lower, ↓reduceIte]
      rcases Nat.eq_or_lt_of_le first.lower with rfl | after
      · simp only [first.hit]
      · have missed := first.before i (Nat.le_refl i) after
        simp only [missed]
        exact ih (first.next missed)

theorem scan_always (rounds i : Nat) (always : ∀ j, goesOn j = true) :
    scan goesOn attempt rounds i = (List.range' i rounds).findSome? attempt := by
  induction rounds generalizing i with
  | zero => rfl
  | succ rounds ih =>
      rw [List.range'_succ, List.findSome?_cons, ← ih]
      simp only [scan, always, ↓reduceIte]
      rfl

theorem exists_firstHit {rounds i : Nat} {found : A} (reached : Reached goesOn rounds i)
    (hit : attempt i = some found) :
    ∃ k ≤ i, ∃ first, FirstHit goesOn attempt rounds 0 k first := by
  have hits : ∃ k, (attempt k).isSome = true := ⟨i, by simp [hit]⟩
  have least : Nat.find hits ≤ i := Nat.find_min' hits (by simp [hit])
  obtain ⟨first, firstHit⟩ := Option.isSome_iff_exists.mp (Nat.find_spec hits)
  refine ⟨Nat.find hits, least, first, Nat.zero_le _, ?_, ?_, ?_, firstHit⟩
  · have bound := reached.1
    omega
  · intro j _ le
    exact reached.2 j (Nat.le_trans le least)
  · intro j _ lt
    simpa using Nat.find_min hits lt

theorem scan_passes_iff (rounds : Nat) (test : A → Prop) :
    (∀ found, scan goesOn attempt rounds 0 = some found → test found) ↔
      ∀ i found, Reached goesOn rounds i → attempt i = some found → ¬ test found →
        ∃ j < i, ∃ earlier, attempt j = some earlier ∧ test earlier := by
  constructor
  · intro passes i found reached hit fails
    obtain ⟨k, le, first, firstHit⟩ := exists_firstHit reached hit
    have passed := passes first firstHit.scan_eq
    rcases Nat.lt_or_eq_of_le le with before | rfl
    · exact ⟨k, before, first, firstHit.hit, passed⟩
    · have same := firstHit.hit
      rw [hit] at same
      cases same
      exact absurd passed fails
  · intro covered found scanned
    obtain ⟨k, first⟩ := scan_firstHit rounds 0 found scanned
    by_contra fails
    have reached : Reached goesOn rounds k :=
      ⟨by simpa using first.upper, fun j le => first.goes j (Nat.zero_le j) le⟩
    obtain ⟨j, lt, earlier, sooner, _⟩ := covered k found reached first.hit fails
    rw [first.before j (Nat.zero_le j) lt] at sooner
    cases sooner

end Search
