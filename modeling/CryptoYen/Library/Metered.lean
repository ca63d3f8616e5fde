import Mathlib.Logic.Basic

set_option autoImplicit false

namespace CryptoYen

/-- A computation that counts some of its steps and may stop with an exception. -/
structure Metered (E A : Type) where
  cost : Nat
  result : Except E A

namespace Metered

variable {E A B : Type}

def stop (e : E) : Metered E A := ⟨0, .error e⟩

def tick (a : A) : Metered E A := ⟨1, .ok a⟩

def andThen (x : Metered E A) (f : A → Metered E B) : Metered E B :=
  match x.result with
  | .error e => ⟨x.cost, .error e⟩
  | .ok a => ⟨x.cost + (f a).cost, (f a).result⟩

instance : Monad (Metered E) where
  pure a := ⟨0, .ok a⟩
  bind := andThen

def mapError (f : E → E) (x : Metered E A) : Metered E A := ⟨x.cost, x.result.mapError f⟩

theorem bind_ok (x : Metered E A) (f : A → Metered E B) (b : B)
    (ok : (x >>= f).result = .ok b) : ∃ a, x.result = .ok a ∧ (f a).result = .ok b := by
  change (andThen x f).result = .ok b at ok
  rw [andThen] at ok
  cases ended : x.result with
  | error e =>
      rw [ended] at ok
      cases ok
  | ok a =>
      rw [ended] at ok
      exact ⟨a, rfl, ok⟩

theorem mapError_ok (f : E → E) (x : Metered E A) (a : A) (ok : (x.mapError f).result = .ok a) :
    x.result = .ok a := by
  rw [mapError] at ok
  cases ended : x.result with
  | error e =>
      rw [ended] at ok
      cases ok
  | ok b =>
      rw [ended] at ok
      exact ok

/-- At most `limit` counted steps, then either a result with `post` or a tame exception. -/
structure Ends (tame : E → Prop) (limit : Nat) (post : A → Prop) (x : Metered E A) : Prop where
  cost_le : x.cost ≤ limit
  ok : ∀ a, x.result = .ok a → post a
  error : ∀ e, x.result = .error e → tame e

namespace Ends

variable {tame : E → Prop} {limit : Nat}

theorem pure {post : A → Prop} (a : A) (holds : post a) :
    Ends tame limit post (Pure.pure a : Metered E A) where
  cost_le := Nat.zero_le _
  ok := by
    intro b same
    cases same
    exact holds
  error := by
    intro e same
    cases same

theorem stop {post : A → Prop} (e : E) (holds : tame e) :
    Ends tame limit post (Metered.stop e : Metered E A) where
  cost_le := Nat.zero_le _
  ok := by
    intro b same
    cases same
  error := by
    intro e' same
    cases same
    exact holds

theorem bind {first rest : Nat} {mid : A → Prop} {post : B → Prop} {x : Metered E A}
    {f : A → Metered E B} (before : Ends tame first mid x)
    (after : ∀ a, mid a → Ends tame rest post (f a)) :
    Ends tame (first + rest) post (x >>= f) := by
  have same : x >>= f = andThen x f := rfl
  rw [same, andThen]
  cases ended : x.result with
  | error e =>
      refine ⟨Nat.le_trans before.cost_le (Nat.le_add_right _ _), ?_, ?_⟩
      · intro b same
        cases same
      · intro e' same
        cases same
        exact before.error e ended
  | ok a =>
      have then_ := after a (before.ok a ended)
      exact ⟨Nat.add_le_add before.cost_le then_.cost_le, then_.ok, then_.error⟩

theorem bind_free {mid : A → Prop} {post : B → Prop} {x : Metered E A} {f : A → Metered E B}
    (before : Ends tame 0 mid x) (after : ∀ a, mid a → Ends tame limit post (f a)) :
    Ends tame limit post (x >>= f) := by
  have both := bind before after
  rwa [Nat.zero_add] at both

theorem bind_last {mid : A → Prop} {post : B → Prop} {x : Metered E A} {f : A → Metered E B}
    (before : Ends tame limit mid x) (after : ∀ a, mid a → Ends tame 0 post (f a)) :
    Ends tame limit post (x >>= f) :=
  bind before after

theorem tick_bind {rest : Nat} {post : B → Prop} (a : A) {f : A → Metered E B}
    (after : Ends tame rest post (f a)) (room : rest + 1 ≤ limit) :
    Ends tame limit post (Metered.tick a >>= f) :=
  ⟨by rw [Nat.add_comm] at room; exact Nat.le_trans (Nat.add_le_add_left after.cost_le 1) room,
    after.ok, after.error⟩

theorem mono {less : Nat} {post weaker : A → Prop} {x : Metered E A}
    (ends : Ends tame less post x) (room : less ≤ limit) (weaken : ∀ a, post a → weaker a) :
    Ends tame limit weaker x :=
  ⟨Nat.le_trans ends.cost_le room, fun a ok => weaken a (ends.ok a ok), ends.error⟩

theorem keep {post : A → Prop} {x : Metered E A} (ends : Ends tame limit post x) :
    Ends tame limit (fun a => x.result = .ok a ∧ post a) x :=
  ⟨ends.cost_le, fun a ok => ⟨ok, ends.ok a ok⟩, ends.error⟩

theorem mapError {tamer : E → Prop} {post : A → Prop} {x : Metered E A} (f : E → E)
    (ends : Ends tame limit post x) (calms : ∀ e, tame e → tamer (f e)) :
    Ends tamer limit post (x.mapError f) := by
  refine ⟨ends.cost_le, ?_, ?_⟩
  · intro a ok
    exact ends.ok a (mapError_ok f x a ok)
  · intro e' error
    rw [Metered.mapError] at error
    cases ended : x.result with
    | error e =>
        rw [ended] at error
        cases error
        exact calms e (ends.error e ended)
    | ok b =>
        rw [ended] at error
        cases error

end Ends

end Metered

end CryptoYen
