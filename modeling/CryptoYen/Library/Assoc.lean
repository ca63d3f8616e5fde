import Mathlib.Algebra.BigOperators.Group.List.Basic
import Mathlib.Data.List.AList

set_option autoImplicit false

namespace Assoc

universe u v w

variable {K : Type u} [DecidableEq K] {V : Type v} {M : Type w} [AddCommMonoid M]

def sumBy (measure : V → M) (map : AList fun _ : K => V) : M :=
  (map.entries.map fun item => measure item.2).sum

theorem sumBy_insert (measure : V → M) (map : AList fun _ : K => V) (key : K) (value : V)
    (absent : map.lookup key = none) :
    sumBy measure (map.insert key value) = measure value + sumBy measure map := by
  have fresh := AList.lookup_eq_none.mp absent
  rw [sumBy, AList.entries_insert_of_notMem fresh, List.map_cons, List.sum_cons]
  rfl

private theorem sum_kerase (measure : V → M) (entries : List (Sigma fun _ : K => V)) (key : K)
    (value : V) (distinct : entries.NodupKeys) (present : entries.dlookup key = some value) :
    measure value + ((entries.kerase key).map fun item => measure item.2).sum =
      (entries.map fun item => measure item.2).sum := by
  induction entries with
  | nil => cases present
  | cons item rest ih =>
      obtain ⟨head, here⟩ := item
      by_cases same : key = head
      · subst same
        rw [List.dlookup_cons_eq] at present
        cases present
        have erased : List.kerase key (⟨key, value⟩ :: rest : List (Sigma fun _ : K => V)) = rest :=
          List.kerase_cons_eq rfl
        rw [erased, List.map_cons, List.sum_cons]
      · rw [List.dlookup_cons_ne rest ⟨head, here⟩ same] at present
        have tail := ih (List.nodupKeys_cons.mp distinct).2 present
        rw [List.kerase_cons_ne same, List.map_cons, List.map_cons, List.sum_cons, List.sum_cons,
          ← tail, add_left_comm]

theorem sumBy_erase (measure : V → M) (map : AList fun _ : K => V) (key : K) (value : V)
    (present : map.lookup key = some value) :
    measure value + sumBy measure (map.erase key) = sumBy measure map :=
  sum_kerase measure map.entries key value map.nodupKeys present

theorem sumBy_write (measure : V → M) (map : AList fun _ : K => V) (key : K) (value : V) :
    sumBy measure (map.insert key value) = measure value + sumBy measure (map.erase key) := by
  rw [sumBy, AList.entries_insert, List.map_cons, List.sum_cons]
  rfl

theorem sumBy_replace (measure : V → M) (map : AList fun _ : K => V) (key : K) (old value : V)
    (present : map.lookup key = some old) :
    measure old + sumBy measure (map.insert key value) = measure value + sumBy measure map := by
  rw [sumBy_write, ← sumBy_erase measure map key old present, add_left_comm]

omit [DecidableEq K] in
theorem sumBy_add [DecidableEq K] (measure other : V → M) (map : AList fun _ : K => V) :
    sumBy (fun value => measure value + other value) map = sumBy measure map + sumBy other map :=
  List.sum_map_add

theorem length_erase (map : AList fun _ : K => V) (key : K) (value : V)
    (present : map.lookup key = some value) :
    (map.erase key).entries.length + 1 = map.entries.length := by
  have member : key ∈ map.keys := by
    rw [← AList.mem_keys, ← AList.lookup_isSome, present]
    rfl
  have shorter := List.length_erase_of_mem member
  have positive := List.length_pos_of_mem member
  rw [← AList.keys_erase] at shorter
  simp only [AList.keys, List.keys, List.length_map] at shorter positive
  omega

theorem erase_length (map : AList fun _ : K => V) (key : K) (value : V)
    (present : map.lookup key = some value) :
    (map.erase key).entries.length < map.entries.length :=
  Nat.lt_of_succ_le (length_erase map key value present).le

theorem erase_length_le (map : AList fun _ : K => V) (key : K) :
    (map.erase key).entries.length ≤ map.entries.length :=
  (List.kerase_sublist key map.entries).length_le

theorem insert_length (map : AList fun _ : K => V) (key : K) (value : V) :
    (map.insert key value).entries.length ≤ map.entries.length + 1 := by
  rw [AList.entries_insert, List.length_cons]
  exact Nat.succ_le_succ (erase_length_le map key)

theorem lookup_insert (map : AList fun _ : K => V) (key other : K) (value : V) :
    (map.insert key value).lookup other =
      if other = key then some value else map.lookup other := by
  by_cases same : other = key
  · subst same
    simp
  · simp [same, AList.lookup_insert_ne same]

theorem forall_lookup_insert {P : K → V → Prop} (map : AList fun _ : K => V) (key : K) (value : V)
    (here : P key value)
    (others : ∀ other found, other ≠ key → map.lookup other = some found → P other found)
    (other : K) (found : V) (present : (map.insert key value).lookup other = some found) :
    P other found := by
  rw [lookup_insert] at present
  split at present
  next same =>
    cases present
    exact same ▸ here
  next differs => exact others other found differs present

theorem lookup_erase (map : AList fun _ : K => V) (key other : K) :
    (map.erase key).lookup other = if other = key then none else map.lookup other := by
  by_cases same : other = key
  · subst same
    simp
  · simp [same, AList.lookup_erase_ne same]

theorem lookup_of_erase (map : AList fun _ : K => V) (key other : K) (value : V)
    (present : (map.erase key).lookup other = some value) :
    other ≠ key ∧ map.lookup other = some value := by
  rw [lookup_erase] at present
  split at present
  next => cases present
  next differs => exact ⟨differs, present⟩

theorem lookup_eraseAll (keys : List K) (map : AList fun _ : K => V) (other : K) :
    (keys.foldl (fun map key => map.erase key) map).lookup other =
      if other ∈ keys then none else map.lookup other := by
  induction keys generalizing map with
  | nil => simp
  | cons key rest ih =>
      rw [List.foldl_cons, ih, lookup_erase]
      by_cases later : other ∈ rest <;> by_cases same : other = key <;> simp [later, same]

theorem lookup_eraseWhere {I : Type u} (keep : I → Bool) (key : I → K) (items : List I)
    (map : AList fun _ : K => V) (other : K) :
    (items.foldl (fun map item => if keep item then map.erase (key item) else map) map).lookup
        other =
      if ∃ item ∈ items, keep item = true ∧ key item = other then none else map.lookup other := by
  induction items generalizing map with
  | nil => simp
  | cons item rest ih =>
      rw [List.foldl_cons, ih]
      by_cases later : ∃ item ∈ rest, keep item = true ∧ key item = other
      · simp [later]
      · rw [if_neg later]
        cases kept : keep item with
        | false => simp [later, kept]
        | true =>
            rw [if_pos rfl, lookup_erase]
            by_cases same : other = key item
            · simp [same, kept]
            · simp [same, later, Ne.symm same]

omit [DecidableEq K] [AddCommMonoid M] in
theorem mem_entries [DecidableEq K] (map : AList fun _ : K => V) (key : K) (value : V) :
    (⟨key, value⟩ : Sigma fun _ : K => V) ∈ map.entries ↔ map.lookup key = some value :=
  AList.mem_lookup_iff.symm

theorem sumBy_filter (measure : V → M) (keep : V → Bool) (map small : AList fun _ : K => V)
    (kept : ∀ key, small.lookup key = (map.lookup key).filter keep)
    (weightless : ∀ value, keep value = false → measure value = 0) :
    sumBy measure small = sumBy measure map := by
  have distinct : (map.entries.filter fun item => keep item.2).NodupKeys :=
    map.nodupKeys.sublist List.filter_sublist
  have same : List.Perm small.entries (map.entries.filter fun item => keep item.2) := by
    refine List.lookup_ext small.nodupKeys distinct fun key value => ?_
    have left : value ∈ small.entries.dlookup key ↔ (map.lookup key).filter keep = some value := by
      rw [← kept key]
      rfl
    rw [left, List.mem_dlookup_iff distinct, List.mem_filter, mem_entries, Option.filter_eq_some_iff]
  rw [sumBy, (same.map _).sum_eq, sumBy]
  induction map.entries with
  | nil => rfl
  | cons item rest ih =>
      cases keeps : keep item.2 with
      | true => simp [keeps, ih]
      | false => simp [keeps, ih, weightless item.2 keeps]

theorem sumBy_zero (measure : V → M) (map : AList fun _ : K => V)
    (weightless : ∀ key value, map.lookup key = some value → measure value = 0) :
    sumBy measure map = 0 := by
  refine List.sum_eq_zero fun weight member => ?_
  obtain ⟨item, present, rfl⟩ := List.mem_map.mp member
  exact weightless item.1 item.2 ((mem_entries map item.1 item.2).mp present)

-- std::map::insert, which keeps an entry that is there, and a change of an entry in place.
def insertNew (map : AList fun _ : K => V) (key : K) (value : V) : AList fun _ : K => V :=
  match map.lookup key with
  | some _ => map
  | none => map.insert key value

def modify (map : AList fun _ : K => V) (key : K) (change : V → V) : AList fun _ : K => V :=
  match map.lookup key with
  | some value => map.insert key (change value)
  | none => map

theorem lookup_insertNew (map : AList fun _ : K => V) (key other : K) (value : V) :
    (insertNew map key value).lookup other =
      if other = key then some ((map.lookup key).getD value) else map.lookup other := by
  unfold insertNew
  cases present : map.lookup key with
  | none => simp [lookup_insert]
  | some old =>
      by_cases same : other = key
      · subst same
        simp [present]
      · simp [same]

theorem lookup_modify (map : AList fun _ : K => V) (key other : K) (change : V → V) :
    (modify map key change).lookup other =
      if other = key then (map.lookup key).map change else map.lookup other := by
  unfold modify
  cases present : map.lookup key with
  | none =>
      by_cases same : other = key
      · subst same
        simp [present]
      · simp [same]
  | some value => simp [lookup_insert]

theorem lookup_insertAll (keys : List K) (map : AList fun _ : K => V) (value : V) (other : K) :
    (keys.foldl (fun map key => insertNew map key value) map).lookup other =
      if other ∈ keys then some ((map.lookup other).getD value) else map.lookup other := by
  induction keys generalizing map with
  | nil => simp
  | cons key rest ih =>
      rw [List.foldl_cons, ih, lookup_insertNew]
      by_cases same : other = key
      · subst same
        simp
      · simp [same]

end Assoc
