import Mathlib.Data.List.Basic
import Mathlib.Tactic.Common

set_option autoImplicit false

namespace Machine

universe u v w

variable {S : Type u} {L : Type v} {T : Type w}

-- A machine is a partial step function; a step that fails stops the run.
def run (step : S → L → Option S) : S → List L → Option S
  | s, [] => some s
  | s, label :: rest => (step s label).bind fun next => run step next rest

def Along (allowed : S → L → Prop) (step : S → L → Option S) : S → List L → Prop
  | _, [] => True
  | s, label :: rest =>
      allowed s label ∧ ∀ next, step s label = some next → Along allowed step next rest

theorem run_append (step : S → L → Option S) (s : S) (first second : List L) :
    run step s (first ++ second) = (run step s first).bind fun mid => run step mid second := by
  induction first generalizing s with
  | nil => rfl
  | cons label rest ih =>
      simp only [List.cons_append, run]
      cases step s label with
      | none => rfl
      | some next => exact ih next

theorem along_append (allowed : S → L → Prop) (step : S → L → Option S) (s : S)
    (first second : List L) :
    Along allowed step s (first ++ second) ↔
      Along allowed step s first ∧
        ∀ mid, run step s first = some mid → Along allowed step mid second := by
  induction first generalizing s with
  | nil => simp [Along, run]
  | cons label rest ih =>
      simp only [List.cons_append, Along, run, ih]
      cases stepped : step s label with
      | none => simp
      | some next => simp [and_assoc]

instance decidableAlong (allowed : S → L → Prop) (step : S → L → Option S)
    [∀ s label, Decidable (allowed s label)] :
    ∀ s labels, Decidable (Along allowed step s labels)
  | _, [] => .isTrue trivial
  | s, label :: rest =>
      match taken : step s label with
      | none =>
          decidable_of_iff (allowed s label) (by simp [Along, taken])
      | some next =>
          have := decidableAlong allowed step next rest
          decidable_of_iff (allowed s label ∧ Along allowed step next rest) (by simp [Along, taken])

theorem along_true (step : S → L → Option S) (s : S) (labels : List L) :
    Along (fun _ _ => True) step s labels := by
  induction labels generalizing s with
  | nil => trivial
  | cons label rest ih => exact ⟨trivial, fun next _ => ih next⟩

theorem along_cons (allowed : S → L → Prop) (step : S → L → Option S) (s next : S) (label : L)
    (rest : List L) (taken : step s label = some next) (here : allowed s label)
    (later : Along allowed step next rest) : Along allowed step s (label :: rest) := by
  refine ⟨here, fun other stepped => ?_⟩
  rw [taken] at stepped
  cases stepped
  exact later

theorem along_mono (allowed weaker : S → L → Prop) (step : S → L → Option S) (s : S)
    (labels : List L) (implies : ∀ s, ∀ label ∈ labels, allowed s label → weaker s label)
    (along : Along allowed step s labels) : Along weaker step s labels := by
  induction labels generalizing s with
  | nil => trivial
  | cons label rest ih =>
      obtain ⟨here, later⟩ := List.forall_mem_cons.mp fun label member s => implies s label member
      exact ⟨here s along.1, fun next taken =>
        ih next (fun s label member => later label member s) (along.2 next taken)⟩

theorem run_invariant (step : S → L → Option S) (allowed : S → L → Prop) (inv : S → Prop)
    (preserved : ∀ s label next, inv s → allowed s label → step s label = some next → inv next)
    (s final : S) (labels : List L) (start : inv s) (along : Along allowed step s labels)
    (ran : run step s labels = some final) : inv final := by
  induction labels generalizing s with
  | nil =>
      cases ran
      exact start
  | cons label rest ih =>
      obtain ⟨next, taken, rest_ran⟩ := Option.bind_eq_some_iff.mp ran
      exact ih next (preserved s label next start along.1 taken) (along.2 next taken) rest_ran

theorem run_total (step : S → L → Option S) (valid : L → Prop) (inv : S → Prop)
    (keeps : ∀ s label, inv s → valid label → ∃ next, step s label = some next ∧ inv next)
    (s : S) (labels : List L) (valids : ∀ label ∈ labels, valid label) (start : inv s) :
    ∃ final, run step s labels = some final ∧ inv final := by
  induction labels generalizing s with
  | nil => exact ⟨s, rfl, start⟩
  | cons label rest ih =>
      obtain ⟨here, later⟩ := List.forall_mem_cons.mp valids
      obtain ⟨next, taken, kept⟩ := keeps s label start here
      obtain ⟨final, ran, last⟩ := ih next later kept
      exact ⟨final, by simp [run, taken, ran], last⟩

-- An invariant that allowed steps keep, and that any other step leaves for an unsafe state: a run is
-- safe all along exactly when all its steps are allowed.
theorem safe_prefixes_iff (step : S → L → Option S) (valid : L → Prop) (allowed : S → L → Prop)
    (inv safe : S → Prop) (total : ∀ s label, ∃ next, step s label = some next)
    (is_safe : ∀ s, inv s → safe s)
    (keeps : ∀ s label next, valid label → inv s → step s label = some next → allowed s label →
      inv next)
    (needs : ∀ s label next, valid label → inv s → step s label = some next → safe next →
      allowed s label)
    (s : S) (labels : List L) (valids : ∀ label ∈ labels, valid label) (start : inv s) :
    (∀ first, first <+: labels → ∀ final, run step s first = some final → safe final) ↔
      Along allowed step s labels := by
  induction labels generalizing s with
  | nil =>
      simp only [List.prefix_nil, forall_eq, run, Option.some.injEq, forall_eq', Along, iff_true]
      exact is_safe s start
  | cons label rest ih =>
      obtain ⟨next, taken⟩ := total s label
      obtain ⟨head_valid, rest_valid⟩ := List.forall_mem_cons.mp valids
      constructor
      · intro holds
        have here : safe next := holds [label] (by simp) next (by simp [run, taken])
        have fine := needs s label next head_valid start taken here
        have kept := keeps s label next head_valid start taken fine
        refine ⟨fine, fun other stepped => ?_⟩
        rw [taken] at stepped
        cases stepped
        refine (ih next rest_valid kept).mp fun first shorter final ran => ?_
        exact holds (label :: first) (by simpa using shorter) final (by simpa [run, taken] using ran)
      · intro along first shorter final ran
        have kept := keeps s label next head_valid start taken along.1
        cases first with
        | nil =>
            cases ran
            exact is_safe s start
        | cons head tail =>
            obtain ⟨rfl, later⟩ := List.cons_prefix_cons.mp shorter
            refine (ih next rest_valid kept).mpr (along.2 next taken) tail later final ?_
            simpa [run, taken] using ran

theorem valid_prefixes_iff (step : S → L → Option S) (valid : L → Prop) (allowed : S → L → Prop)
    (inv : S → Prop) (total : ∀ s label, ∃ next, step s label = some next)
    (exact_step : ∀ s label next, valid label → inv s → step s label = some next →
      (allowed s label ↔ inv next))
    (s : S) (labels : List L) (valids : ∀ label ∈ labels, valid label) (start : inv s) :
    (∀ first, first <+: labels → ∀ final, run step s first = some final → inv final) ↔
      Along allowed step s labels :=
  safe_prefixes_iff step valid allowed inv inv total (fun _ held => held)
    (fun s label next here held taken => (exact_step s label next here held taken).mp)
    (fun s label next here held taken => (exact_step s label next here held taken).mpr)
    s labels valids start

theorem prefixes_iff (step : S → L → Option S) (allowed : S → L → Prop) (inv : S → Prop)
    (total : ∀ s label, ∃ next, step s label = some next)
    (exact_step : ∀ s label next, inv s → step s label = some next → (allowed s label ↔ inv next))
    (s : S) (labels : List L) (start : inv s) :
    (∀ first, first <+: labels → ∀ final, run step s first = some final → inv final) ↔
      Along allowed step s labels :=
  valid_prefixes_iff step (fun _ => True) allowed inv total
    (fun s label next _ => exact_step s label next) s labels (fun _ _ => trivial) start

/-- The run does not fail, and every state on its way is safe. -/
def SafeRun (step : S → L → Option S) (safe : S → Prop) (s : S) (labels : List L) : Prop :=
  (∃ final, run step s labels = some final) ∧
    ∀ first, first <+: labels → ∀ mid, run step s first = some mid → safe mid

theorem safeRun_cons (step : S → L → Option S) (safe : S → Prop) (s : S) (label : L)
    (rest : List L) :
    SafeRun step safe s (label :: rest) ↔
      safe s ∧ ∃ next, step s label = some next ∧ SafeRun step safe next rest := by
  constructor
  · rintro ⟨⟨final, ran⟩, holds⟩
    obtain ⟨next, taken, later⟩ := Option.bind_eq_some_iff.mp ran
    refine ⟨holds [] (List.nil_prefix) s rfl, next, taken, ⟨final, later⟩, fun first shorter mid ran => ?_⟩
    refine holds (label :: first) (List.cons_prefix_cons.mpr ⟨rfl, shorter⟩) mid ?_
    rw [run, taken, Option.bind_some, ran]
  · rintro ⟨here, next, taken, ⟨final, later⟩, holds⟩
    refine ⟨⟨final, by rw [run, taken, Option.bind_some, later]⟩, fun first shorter mid ran => ?_⟩
    cases first with
    | nil =>
        cases ran
        exact here
    | cons head tail =>
        obtain ⟨rfl, later⟩ := List.cons_prefix_cons.mp shorter
        rw [run, taken, Option.bind_some] at ran
        exact holds tail later mid ran

theorem safeRun_of_along (step : S → L → Option S) (allowed : S → L → Prop) (inv safe : S → Prop)
    (is_safe : ∀ s, inv s → safe s)
    (keeps : ∀ s label, inv s → allowed s label → ∃ next, step s label = some next ∧ inv next)
    (s : S) (labels : List L) (start : inv s) (along : Along allowed step s labels) :
    SafeRun step safe s labels := by
  induction labels generalizing s with
  | nil =>
      refine ⟨⟨s, rfl⟩, fun first shorter mid ran => ?_⟩
      rw [List.prefix_nil.mp shorter] at ran
      cases ran
      exact is_safe s start
  | cons label rest ih =>
      obtain ⟨next, taken, kept⟩ := keeps s label start along.1
      rw [safeRun_cons]
      exact ⟨is_safe s start, next, taken, ih next kept (along.2 next taken)⟩

theorem safeRun_iff (step : S → L → Option S) (allowed : S → L → Prop) (inv safe : S → Prop)
    (is_safe : ∀ s, inv s → safe s)
    (keeps : ∀ s label, inv s → allowed s label → ∃ next, step s label = some next ∧ inv next)
    (needs : ∀ s label next, inv s → step s label = some next → safe next → allowed s label)
    (s : S) (labels : List L) (start : inv s) :
    SafeRun step safe s labels ↔ Along allowed step s labels := by
  refine ⟨fun holds => ?_, safeRun_of_along step allowed inv safe is_safe keeps s labels start⟩
  induction labels generalizing s with
  | nil => trivial
  | cons label rest ih =>
      obtain ⟨_, next, taken, later⟩ := (safeRun_cons step safe s label rest).mp holds
      have here := needs s label next start taken (later.2 [] List.nil_prefix next rfl)
      obtain ⟨other, again, kept⟩ := keeps s label start here
      rw [taken] at again
      cases again
      exact along_cons allowed step s next label rest taken here (ih next kept later)

-- Every step adds its loss to an excess that nothing takes away: at the end of a run the excess is
-- what it was exactly when no step lost anything.
theorem run_excess_iff (step : S → L → Option S) (inv : S → Prop) (excess : S → Int)
    (loss : S → L → Nat)
    (preserved : ∀ s label next, inv s → step s label = some next → inv next)
    (adds : ∀ s label next, inv s → step s label = some next →
      excess next = excess s + loss s label)
    (s final : S) (labels : List L) (start : inv s) (ran : run step s labels = some final) :
    excess s ≤ excess final ∧
      (excess final = excess s ↔ Along (fun s label => loss s label = 0) step s labels) := by
  induction labels generalizing s with
  | nil =>
      cases ran
      exact ⟨Int.le_refl _, by simp [Along]⟩
  | cons label rest ih =>
      obtain ⟨next, taken, rest_ran⟩ := Option.bind_eq_some_iff.mp ran
      have added := adds s label next start taken
      have ⟨grows, later⟩ := ih next (preserved s label next start taken) rest_ran
      refine ⟨by omega, ?_⟩
      simp only [Along, taken, Option.some.injEq, forall_eq', ← later]
      omega

theorem along_congr (step : S → L → Option S) (allowed other : S → L → Prop) (inv : S → Prop)
    (preserved : ∀ s label next, inv s → step s label = some next → inv next)
    (agree : ∀ s label, inv s → (allowed s label ↔ other s label)) (s : S) (labels : List L)
    (start : inv s) : Along allowed step s labels ↔ Along other step s labels := by
  induction labels generalizing s with
  | nil => rfl
  | cons label rest ih =>
      refine and_congr (agree s label start) ?_
      exact forall₂_congr fun next taken => ih next (preserved s label next start taken)

def count (counted : S → L → Bool) (step : S → L → Option S) : S → List L → Nat
  | _, [] => 0
  | s, label :: rest =>
      (counted s label).toNat + (step s label).elim 0 fun next => count counted step next rest

-- Every step comes to the end or takes what it counts from a rank: a run that counts more comes to
-- the end on its way.
theorem exists_end (step : S → L → Option S) (allowed : S → L → Prop) (counted : S → L → Bool)
    (inv ended : S → Prop) (rank : S → Nat)
    (keeps : ∀ s label, inv s → allowed s label → ∃ next, step s label = some next ∧
      (ended next ∨ inv next ∧ rank next + (counted s label).toNat ≤ rank s))
    (s : S) (labels : List L) (start : inv s) (along : Along allowed step s labels)
    (more : rank s < count counted step s labels) :
    ∃ first, first <+: labels ∧ ∃ mid, run step s first = some mid ∧ ended mid := by
  induction labels generalizing s with
  | nil => exact absurd more (Nat.not_lt_zero _)
  | cons label rest ih =>
      obtain ⟨next, taken, ends | ⟨kept, less⟩⟩ := keeps s label start along.1
      · exact ⟨[label], by simp, next, by simp [run, taken], ends⟩
      · rw [count, taken, Option.elim_some] at more
        obtain ⟨first, shorter, mid, ran, ends⟩ := ih next kept (along.2 next taken) (by omega)
        exact ⟨label :: first, by simpa using shorter, mid, by simpa [run, taken] using ran, ends⟩

-- Forward simulation: the machine never fails and stays related to a total specification.
theorem run_refines (step : S → L → Option S) (spec : T → L → T) (allowed : S → L → Prop)
    (related : S → T → Prop)
    (simulates : ∀ s t label, related s t → allowed s label →
      ∃ next, step s label = some next ∧ related next (spec t label))
    (s : S) (t : T) (labels : List L) (start : related s t)
    (along : Along allowed step s labels) :
    ∃ final, run step s labels = some final ∧ related final (labels.foldl spec t) := by
  induction labels generalizing s t with
  | nil => exact ⟨s, rfl, start⟩
  | cons label rest ih =>
      obtain ⟨next, taken, here⟩ := simulates s t label start along.1
      obtain ⟨final, ran, there⟩ := ih next (spec t label) here (along.2 next taken)
      exact ⟨final, by simp [run, taken, ran], there⟩

end Machine
