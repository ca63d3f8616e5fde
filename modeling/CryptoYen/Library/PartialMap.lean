import Mathlib.Data.Fintype.Card
import Mathlib.Logic.Function.Basic
import CryptoYen.Library.Assoc

set_option autoImplicit false

namespace PartialMap

universe u v w

variable {A : Type u} {B : Type v} [DecidableEq A] [DecidableEq B] {f : A → Option B}
  {g : B → Option A}

def Inverse (f : A → Option B) (g : B → Option A) : Prop := ∀ a b, f a = some b ↔ g b = some a

omit [DecidableEq A] [DecidableEq B] in
theorem Inverse.absent (inverse : Inverse f g) (a : A) (b : B) (unknown : g b = none) :
    f a ≠ some b := by
  intro present
  rw [(inverse a b).mp present] at unknown
  cases unknown

omit [DecidableEq A] [DecidableEq B] in
theorem Inverse.injective (inverse : Inverse f g) (a other : A) (b : B) (here : f a = some b)
    (there : f other = some b) : a = other := by
  have back := ((inverse a b).mp here).symm.trans ((inverse other b).mp there)
  exact Option.some.inj back

theorem Inverse.pair (inverse : Inverse f g) (a : A) (b : B) (free : f a = none)
    (fresh : g b = none) :
    Inverse (Function.update f a (some b)) (Function.update g b (some a)) := by
  intro x y
  have linked := inverse x y
  by_cases left : x = a <;> by_cases right : y = b
  next => simp [left, right]
  next =>
    subst left
    have apart : g y ≠ some x := by
      intro back
      rw [← linked, free] at back
      cases back
    simp [right, Ne.symm right, apart]
  next =>
    subst right
    have apart : f x ≠ some y := inverse.absent x y fresh
    simp [left, Ne.symm left, apart]
  next => simp [left, right, linked]

theorem Inverse.drop (inverse : Inverse f g) (a : A) (b : B) (linked : f a = some b) :
    Inverse (Function.update f a none) (Function.update g b none) := by
  intro x y
  have other := inverse x y
  by_cases left : x = a <;> by_cases right : y = b
  next => simp [left, right]
  next =>
    subst left
    have apart : g y ≠ some x := by
      intro back
      rw [← other, linked] at back
      exact right (Option.some.inj back).symm
    simp [right, apart]
  next =>
    subst right
    have apart : f x ≠ some y := fun present => left (inverse.injective x a y present linked)
    simp [left, apart]
  next => simp [left, right, other]

theorem Inverse.swap (inverse : Inverse f g) (a other : A) (b back : B) (apart : a ≠ other)
    (here : f a = some b) (there : f other = some back) :
    Inverse (Function.update (Function.update f a (some back)) other (some b))
      (Function.update (Function.update g b (some other)) back (some a)) := by
  have differs : b ≠ back := by
    intro same
    rw [same] at here
    exact apart (inverse.injective a other back here there)
  have cleared := (inverse.drop a b here).drop other back (by simp [Ne.symm apart, there])
  have crossed := cleared.pair a back (by simp [apart]) (by simp)
  have exchanged := crossed.pair other b (by simp [Ne.symm apart]) (by simp [differs])
  convert exchanged using 1
  · funext x
    by_cases first : x = a <;> by_cases second : x = other <;> simp [first, second, apart]
  · funext y
    by_cases first : y = b <;> by_cases second : y = back <;>
      simp [first, second, differs, Ne.symm differs]

section Columns

variable {V : Type w}

def projected (g : V → Option B) (map : AList fun _ : A => V) (key : A) : Option B :=
  (map.lookup key).bind g

variable (g : V → Option B) (map : AList fun _ : A => V) (key : A) (old value : V)

omit [DecidableEq B] in
theorem projected_insert :
    projected g (map.insert key value) = Function.update (projected g map) key (g value) := by
  funext other
  by_cases same : other = key <;> simp [projected, Assoc.lookup_insert, same]

omit [DecidableEq B] in
theorem projected_erase : projected g (map.erase key) = Function.update (projected g map) key none := by
  funext other
  by_cases same : other = key <;> simp [projected, Assoc.lookup_erase, same]

omit [DecidableEq B] in
theorem projected_same (present : map.lookup key = some old) (same : g value = g old) :
    projected g (map.insert key value) = projected g map := by
  have here : g old = projected g map key := by simp [projected, present]
  rw [projected_insert, same, here, Function.update_eq_self]

theorem lookup_insert_eq :
    (map.insert key value).lookup = Function.update map.lookup key (some value) := by
  funext other
  by_cases same : other = key <;> simp [Assoc.lookup_insert, same]

theorem lookup_erase_eq : (map.erase key).lookup = Function.update map.lookup key none := by
  funext other
  by_cases same : other = key <;> simp [Assoc.lookup_erase, same]

end Columns

section Positions

def atPosition (list : List A) (position : Int) : Option A :=
  if 0 ≤ position then list[position.toNat]? else none

variable (list : List A) (position : Nat) (a b : A)

omit [DecidableEq A] in
@[simp] theorem atPosition_nat : atPosition list position = list[position]? := by
  simp [atPosition]

omit [DecidableEq A] in
theorem atPosition_some (i : Int) (present : atPosition list i = some a) :
    ∃ position : Nat, i = position ∧ list[position]? = some a := by
  unfold atPosition at present
  split at present
  next nonneg => exact ⟨i.toNat, by omega, present⟩
  next => cases present

omit [DecidableEq A] in
theorem atPosition_set (within : position < list.length) :
    atPosition (list.set position a) = Function.update (atPosition list) position (some a) := by
  funext i
  unfold atPosition
  by_cases same : i = position
  next => simp [same, within]
  next =>
    have apart : 0 ≤ i → position ≠ i.toNat := by omega
    rw [Function.update_of_ne same]
    split
    next nonneg => rw [List.getElem?_set_ne (apart nonneg)]
    next => rfl

omit [DecidableEq A] in
theorem atPosition_append :
    atPosition (list ++ [a]) = Function.update (atPosition list) list.length (some a) := by
  funext i
  unfold atPosition
  by_cases same : i = list.length
  next => simp [same]
  next =>
    rw [Function.update_of_ne same]
    split
    next nonneg =>
      by_cases inside : i.toNat < list.length
      next => rw [List.getElem?_append_left inside]
      next =>
        rw [List.getElem?_eq_none (by simp; omega), List.getElem?_eq_none (by omega)]
    next => rfl

omit [DecidableEq A] in
theorem atPosition_dropLast (last : Nat) (length : list.length = last + 1) :
    atPosition list.dropLast = Function.update (atPosition list) last none := by
  funext i
  unfold atPosition
  by_cases same : i = last
  next => simp [same, length]
  next =>
    rw [Function.update_of_ne same]
    split
    next nonneg =>
      by_cases inside : i.toNat < last
      next => simp [length, inside]
      next => rw [List.getElem?_eq_none (by simp; omega), List.getElem?_eq_none (by omega)]
    next => rfl

end Positions

section Counts

variable {S : Type w} [Fintype S] [DecidableEq S]

def count (table : S → Option A) (a : A) : Nat :=
  (Finset.univ.filter fun slot => table slot = some a).card

variable (table : S → Option A) (slot : S) (a b : A)

theorem count_write (empty : table slot = none) :
    count (Function.update table slot (some a)) b = count table b + if b = a then 1 else 0 := by
  have slots : (Finset.univ.filter fun s => Function.update table slot (some a) s = some b) =
      (Finset.univ.filter fun s => table s = some b) ∪ if b = a then {slot} else ∅ := by
    ext s
    by_cases here : s = slot <;> by_cases same : b = a
    next => simp [here, same]
    next => simp [here, same, Ne.symm same, empty]
    next => simp [here, same]
    next => simp [here, same]
  have outside : Disjoint (Finset.univ.filter fun s => table s = some b)
      (if b = a then {slot} else ∅) := by
    split <;> simp [empty]
  rw [count, slots, Finset.card_union_of_disjoint outside]
  split <;> rfl

theorem count_clear (used : table slot = some a) :
    count (Function.update table slot none) b + (if b = a then 1 else 0) = count table b := by
  have cleared : Function.update table slot none slot = none := Function.update_self ..
  have back := count_write (Function.update table slot none) slot a b cleared
  rw [Function.update_idem, ← used, Function.update_eq_self] at back
  exact back.symm

omit [DecidableEq S] in
theorem count_pos (used : table slot = some a) : 0 < count table a :=
  Finset.card_pos.mpr ⟨slot, by simp [used]⟩

omit [DecidableEq S] in
theorem count_eq_zero (unused : ∀ slot, table slot ≠ some a) : count table a = 0 := by
  simp [count, unused]

omit [DecidableEq S] in
theorem exists_of_count_pos (positive : 0 < count table a) : ∃ slot, table slot = some a := by
  obtain ⟨slot, member⟩ := Finset.card_pos.mp positive
  exact ⟨slot, (Finset.mem_filter.mp member).2⟩

theorem count_filterMap (slots : List S) (distinct : slots.Nodup) (complete : ∀ slot, slot ∈ slots) :
    (slots.filterMap table).count a = count table a := by
  have filtered : (slots.filterMap table).count a =
      (slots.filter fun slot => table slot = some a).length := by
    clear complete distinct
    induction slots with
    | nil => rfl
    | cons slot rest ih =>
        cases here : table slot with
        | none => simp [here, ih]
        | some b => by_cases same : b = a <;> simp [here, ih, same]
  have all : Finset.univ = slots.toFinset := by
    ext slot
    simp [complete slot]
  have nodup := distinct.filter fun slot => table slot = some a
  have listed : (slots.filter fun slot => table slot = some a).toFinset =
      slots.toFinset.filter fun slot => table slot = some a := by
    ext slot
    simp
  rw [filtered, count, all, ← listed, List.toFinset_card_of_nodup nodup]

omit [DecidableEq S] [DecidableEq A] in
theorem Inverse.count_one {table : S → Option A} {place : A → Option S} (inverse : Inverse table place)
    [DecidableEq A] (a : A) : count table a = if (place a).isSome then 1 else 0 := by
  cases placed : place a with
  | none => exact count_eq_zero table a fun slot => inverse.absent slot a placed
  | some slot =>
      have only : (Finset.univ.filter fun other => table other = some a) = {slot} := by
        ext other
        simp [inverse other a, placed, eq_comm]
      rw [count, only, Finset.card_singleton]
      rfl

omit [DecidableEq S] in
theorem length_le_slots (entries : List A) (distinct : entries.Nodup)
    (used : ∀ a ∈ entries, ∃ slot, table slot = some a) : entries.length ≤ Fintype.card S := by
  have within : entries.toFinset.image some ⊆ Finset.univ.image table := by
    intro entry member
    obtain ⟨a, listed, same⟩ := Finset.mem_image.mp member
    obtain ⟨slot, here⟩ := used a (List.mem_toFinset.mp listed)
    exact Finset.mem_image.mpr ⟨slot, Finset.mem_univ slot, here.trans same⟩
  calc entries.length = (entries.toFinset.image some).card := by
        rw [Finset.card_image_of_injective _ (Option.some_injective A),
          List.toFinset_card_of_nodup distinct]
    _ ≤ (Finset.univ.image table).card := Finset.card_le_card within
    _ ≤ Fintype.card S := Finset.card_image_le

end Counts

end PartialMap
