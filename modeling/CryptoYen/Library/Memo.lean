import Mathlib.Logic.Function.Basic

set_option autoImplicit false

/-! Values that are computed once, kept under a key with a flag, and dropped by clearing flags. -/

namespace Memo

structure Entry (V : Type) where
  valid : Bool
  value : V
  deriving DecidableEq, Repr

abbrev Table (K V : Type) := K → Entry V

variable {K V E : Type} [DecidableEq K]

def store (key : K) (value : V) (table : Table K V) : Table K V :=
  Function.update table key ⟨true, value⟩

-- An exception leaves the table as it is.
def fetch (useCache : Bool) (compute : K → Except E V) (key : K) (table : Table K V) :
    Except E V × Table K V :=
  if useCache && (table key).valid then (.ok (table key).value, table)
  else
    match compute key with
    | .error thrown => (.error thrown, table)
    | .ok value => (.ok value, store key value table)

def invalidate (keys : List K) (table : Table K V) : Table K V :=
  fun key => if key ∈ keys then { table key with valid := false } else table key

def Coherent (asked : K → Prop) (compute : K → Except E V) (table : Table K V) : Prop :=
  ∀ key, asked key → (table key).valid = true → compute key = .ok (table key).value

variable {asked : K → Prop} {compute : K → Except E V} {table : Table K V}

omit [DecidableEq K] in
theorem Coherent.mono {other : K → Prop} (coherent : Coherent asked compute table)
    (fewer : ∀ key, other key → asked key) : Coherent other compute table :=
  fun key live valid => coherent key (fewer key live) valid

theorem Coherent.store (coherent : Coherent asked compute table) (key : K) (value : V)
    (computed : compute key = .ok value) : Coherent asked compute (store key value table) := by
  intro other live valid
  rw [Memo.store, Function.update_apply] at valid ⊢
  split
  next same =>
    rw [same]
    exact computed
  next apart =>
    rw [if_neg apart] at valid
    exact coherent other live valid

theorem Coherent.fetch_value (coherent : Coherent asked compute table) (useCache : Bool) (key : K)
    (live : asked key) : (fetch useCache compute key table).1 = compute key := by
  rw [fetch]
  split
  next hit =>
    rw [Bool.and_eq_true] at hit
    exact (coherent key live hit.2).symm
  next =>
    cases compute key <;> rfl

theorem Coherent.fetch (coherent : Coherent asked compute table) (useCache : Bool) (key : K) :
    Coherent asked compute (fetch useCache compute key table).2 := by
  rw [Memo.fetch]
  split
  next => exact coherent
  next =>
    cases computed : compute key with
    | error thrown => exact coherent
    | ok value => exact coherent.store key value computed

theorem fetch_off (compute : K → Except E V) (key : K) (table : Table K V) :
    (Memo.fetch false compute key table).1 = compute key := by
  rw [Memo.fetch]
  cases compute key <;> rfl

theorem invalidate_other (keys : List K) (table : Table K V) (key : K) (outside : key ∉ keys) :
    invalidate keys table key = table key := by
  rw [invalidate, if_neg outside]

theorem invalidate_coherent_iff (keys : List K) :
    Coherent asked compute (invalidate keys table) ↔
      Coherent (fun key => asked key ∧ key ∉ keys) compute table := by
  constructor
  · intro coherent key live valid
    have kept := coherent key live.1
    rw [invalidate_other keys table key live.2] at kept
    exact kept valid
  · intro coherent key live valid
    rw [invalidate] at valid ⊢
    split at valid
    next => cases valid
    next outside =>
      rw [if_neg outside]
      exact coherent key ⟨live, outside⟩ valid

end Memo
