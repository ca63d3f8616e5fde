import Mathlib.Data.Option.Basic
import Mathlib.Tactic.Common

set_option autoImplicit false

namespace WriteBack

universe u

structure Slot (V : Type u) where
  value : V
  dirty : Bool
  fresh : Bool

abbrev Column (V : Type u) := List (Option (Slot V))

variable {V : Type u} (blank : V → Bool)

def visible (found : Option V) : Option V := found.filter fun value => !blank value

def fetch (base : Option V) : Column V → Column V × Option V
  | [] => ([], base)
  | some slot :: below => (some slot :: below, some slot.value)
  | none :: below =>
      let (below, found) := fetch base below
      (found.map (fun value => ⟨value, false, blank value⟩) :: below, found)

def peek (base : Option V) : Column V → Option V
  | [] => base
  | some slot :: _ => some slot.value
  | none :: below => peek base below

def contents (base : Option V) (column : Column V) : Option V := visible blank (peek base column)

def acquire (default : V) (base : Option V) (slot : Option (Slot V)) (below : Column V) :
    Slot V × Column V :=
  match slot with
  | some slot => (slot, below)
  | none =>
      match fetch blank base below with
      | (below, some value) => (⟨value, false, blank value⟩, below)
      | (below, none) => (⟨default, false, true⟩, below)

def settle (slot : Slot V) (value : V) : Option (Slot V) :=
  if slot.fresh && blank value then none else some ⟨value, true, slot.fresh⟩

def modify (default : V) (edit : V → V) (base : Option V) : Column V → Column V
  | [] => []
  | slot :: below =>
      let (slot, below) := acquire blank default base slot below
      settle blank slot (edit slot.value) :: below

-- What a flush does to the parent's slot; none when the freshness assertion fails.
def write (child parent : Option (Slot V)) : Option (Option (Slot V)) :=
  match child with
  | none => some parent
  | some slot =>
      if !slot.dirty then some parent
      else
        match parent with
        | none =>
            if blank slot.value then some none
            else if slot.fresh then some (some ⟨slot.value, true, true⟩)
            else none
        | some here =>
            if here.fresh && blank slot.value then some none
            else some (some ⟨slot.value, true, here.fresh⟩)

def writeBase (child : Option (Slot V)) (base : Option V) : Option V :=
  match child with
  | none => base
  | some slot =>
      if !slot.dirty then base else if blank slot.value then none else some slot.value

def Holds : Column V → Prop
  | [] => True
  | slot :: _ => slot.isSome = true

structure Promise (base : Option V) (slot : Slot V) (below : Column V) : Prop where
  fresh : slot.fresh = true → contents blank base below = none
  stale : slot.fresh = false → Holds below
  copied : slot.dirty = false → visible blank (some slot.value) = contents blank base below

def Linked (base : Option V) : Column V → Prop
  | [] => True
  | none :: below => Linked base below
  | some slot :: below => Promise blank base slot below ∧ Linked base below

variable {blank}

@[simp] theorem visible_none : visible blank none = none := rfl

theorem visible_some_blank (value : V) (isBlank : blank value = true) :
    visible blank (some value) = none := by
  simp [visible, Option.filter, isBlank]

theorem visible_some (value : V) (notBlank : blank value = false) :
    visible blank (some value) = some value := by
  simp [visible, Option.filter, notBlank]

@[simp] theorem contents_nil (base : Option V) : contents blank base [] = visible blank base := rfl

@[simp] theorem contents_some (base : Option V) (slot : Slot V) (below : Column V) :
    contents blank base (some slot :: below) = visible blank (some slot.value) := rfl

@[simp] theorem contents_none (base : Option V) (below : Column V) :
    contents blank base (none :: below) = contents blank base below := rfl

theorem fetch_found (blank : V → Bool) (base : Option V) (column : Column V) :
    (fetch blank base column).2 = peek base column := by
  induction column with
  | nil => rfl
  | cons slot below ih =>
      cases slot with
      | some slot => rfl
      | none => exact ih

theorem fetch_peek (base : Option V) (column : Column V) :
    peek base (fetch blank base column).1 = peek base column := by
  induction column with
  | nil => rfl
  | cons slot below ih =>
      cases slot with
      | some slot => rfl
      | none =>
          have found := fetch_found blank base below
          cases value : (fetch blank base below).2 with
          | none => simpa [fetch, value, peek] using ih
          | some value' =>
              simp only [fetch, value, Option.map_some, peek]
              rw [← found, value]

theorem fetch_holds (base : Option V) (column : Column V) (value : V)
    (found : (fetch blank base column).2 = some value) : Holds (fetch blank base column).1 := by
  cases column with
  | nil => trivial
  | cons slot below =>
      cases slot with
      | some slot => rfl
      | none =>
          have below_found : (fetch blank base below).2 = some value := found
          simp [fetch, below_found, Holds]

theorem fetched_promise (base : Option V) (below : Column V) (value : V)
    (found : (fetch blank base below).2 = some value) :
    Promise blank base ⟨value, false, blank value⟩ (fetch blank base below).1 := by
  have same : contents blank base (fetch blank base below).1 = visible blank (some value) := by
    rw [contents, fetch_peek, ← fetch_found blank, found]
  refine ⟨fun fresh => ?_, fun _ => fetch_holds base below value found, fun _ => same.symm⟩
  rw [same, visible_some_blank value fresh]

theorem fetch_linked (base : Option V) (column : Column V) (linked : Linked blank base column) :
    Linked blank base (fetch blank base column).1 := by
  induction column with
  | nil => trivial
  | cons slot below ih =>
      cases slot with
      | some slot => exact linked
      | none =>
          have kept := ih linked
          cases found : (fetch blank base below).2 with
          | none => simpa [fetch, found, Linked] using kept
          | some value =>
              simp only [fetch, found, Option.map_some]
              exact ⟨fetched_promise base below value found, kept⟩

theorem fetch_contents (blank : V → Bool) (base : Option V) (column : Column V) :
    contents blank base (fetch blank base column).1 = contents blank base column := by
  rw [contents, fetch_peek, contents]

def levels (blank : V → Bool) (base : Option V) : Column V → List (Option V)
  | [] => [visible blank base]
  | slot :: below => contents blank base (slot :: below) :: levels blank base below

theorem levels_cons (blank : V → Bool) (base : Option V) (column : Column V) :
    ∃ rest, levels blank base column = contents blank base column :: rest := by
  cases column with
  | nil => exact ⟨[], rfl⟩
  | cons slot below => exact ⟨levels blank base below, rfl⟩

theorem levels_length (blank : V → Bool) (base : Option V) (column : Column V) :
    (levels blank base column).length = column.length + 1 := by
  induction column with
  | nil => rfl
  | cons slot below ih => simp [levels, ih]

theorem levels_getElem? (blank : V → Bool) (base : Option V) (column : Column V) (level : Nat)
    (bound : level ≤ column.length) :
    (levels blank base column)[level]? = some (contents blank base (column.drop level)) := by
  induction column generalizing level with
  | nil =>
      obtain rfl : level = 0 := by simpa using bound
      rfl
  | cons slot below ih =>
      cases level with
      | zero => rfl
      | succ level => exact ih level (by simpa using bound)

theorem empty_contents (blank : V → Bool) (base : Option V) (depth : Nat) :
    contents blank base (List.replicate depth none) = visible blank base := by
  induction depth with
  | zero => rfl
  | succ depth ih => exact ih

theorem empty_levels (blank : V → Bool) (base : Option V) (depth : Nat) :
    levels blank base (List.replicate depth none) =
      List.replicate (depth + 1) (visible blank base) := by
  induction depth with
  | zero => rfl
  | succ depth ih =>
      rw [List.replicate_succ, levels, ih, ← List.replicate_succ, empty_contents]
      rfl

theorem empty_linked (blank : V → Bool) (base : Option V) (depth : Nat) :
    Linked blank base (List.replicate depth none) := by
  induction depth with
  | zero => trivial
  | succ depth ih => exact ih

theorem fetch_levels (blank : V → Bool) (base : Option V) (column : Column V) :
    levels blank base (fetch blank base column).1 = levels blank base column := by
  induction column with
  | nil => rfl
  | cons slot below ih =>
      cases slot with
      | some slot => rfl
      | none =>
          have top := fetch_contents blank base (none :: below)
          simp only [fetch] at top
          simp only [fetch, levels, ih]
          rw [top]

def Respects (blank : V → Bool) (edit : V → V) : Prop :=
  ∀ a b, blank a = true → blank b = true →
    edit a = edit b ∨ (blank (edit a) = true ∧ blank (edit b) = true)

def edited (blank : V → Bool) (default : V) (edit : V → V) (found : Option V) : Option V :=
  visible blank (some (edit (found.getD default)))

theorem edited_visible (default value : V) (edit : V → V) (isBlank : blank default = true)
    (respects : Respects blank edit) :
    visible blank (some (edit value)) =
      edited blank default edit (visible blank (some value)) := by
  cases kind : blank value with
  | false => rw [visible_some value kind, edited, Option.getD_some]
  | true =>
      rw [visible_some_blank value kind, edited, Option.getD_none]
      rcases respects value default kind isBlank with same | ⟨first, second⟩
      · rw [same]
      · rw [visible_some_blank _ first, visible_some_blank _ second]

theorem acquire_correct (default : V) (base : Option V) (slot : Option (Slot V))
    (below : Column V) (isBlank : blank default = true)
    (linked : Linked blank base (slot :: below)) :
    Promise blank base (acquire blank default base slot below).1
        (acquire blank default base slot below).2 ∧
      Linked blank base (acquire blank default base slot below).2 ∧
      visible blank (some (acquire blank default base slot below).1.value) =
        contents blank base (slot :: below) ∧
      levels blank base (acquire blank default base slot below).2 = levels blank base below := by
  cases slot with
  | some slot => exact ⟨linked.1, linked.2, rfl, rfl⟩
  | none =>
      have kept := fetch_linked base below linked
      have shown := fetch_levels blank base below
      have top := fetch_contents blank base below
      have found := fetch_found blank base below
      unfold acquire
      cases result : fetch blank base below with
      | mk below' value =>
          rw [result] at kept shown top found
          cases value with
          | some value =>
              have promise := fetched_promise base below value (by rw [result])
              rw [result] at promise
              refine ⟨promise, kept, ?_, shown⟩
              rw [contents_none, contents, ← found]
          | none =>
              have nothing : contents blank base below = none := by
                rw [contents, ← found, visible_none]
              refine ⟨⟨fun _ => top.trans nothing, by simp, fun _ => ?_⟩, kept, ?_, shown⟩
              · rw [visible_some_blank default isBlank, top.trans nothing]
              · rw [visible_some_blank default isBlank, contents_none, nothing]

theorem settle_correct (base : Option V) (slot : Slot V) (below : Column V) (value : V)
    (promise : Promise blank base slot below) (linked : Linked blank base below) :
    Linked blank base (settle blank slot value :: below) ∧
      contents blank base (settle blank slot value :: below) = visible blank (some value) := by
  unfold settle
  split
  next gone =>
    simp only [Bool.and_eq_true] at gone
    refine ⟨linked, ?_⟩
    rw [contents_none, promise.fresh gone.1, visible_some_blank value gone.2]
  next =>
    exact ⟨⟨⟨promise.fresh, promise.stale, by simp⟩, linked⟩, rfl⟩

theorem modify_correct (default : V) (edit : V → V) (base : Option V)
    (slot : Option (Slot V)) (below : Column V) (isBlank : blank default = true)
    (respects : Respects blank edit) (linked : Linked blank base (slot :: below)) :
    Linked blank base (modify blank default edit base (slot :: below)) ∧
      levels blank base (modify blank default edit base (slot :: below)) =
        edited blank default edit (contents blank base (slot :: below)) ::
          levels blank base below := by
  obtain ⟨promise, kept, shown, others⟩ := acquire_correct default base slot below isBlank linked
  obtain ⟨settled, top⟩ := settle_correct base _ _
    (edit (acquire blank default base slot below).1.value) promise kept
  refine ⟨settled, ?_⟩
  rw [modify, levels, others, top, edited_visible default _ edit isBlank respects, shown]

theorem write_correct (base : Option V) (child parent : Option (Slot V)) (below : Column V)
    (linked : Linked blank base (child :: parent :: below)) :
    ∃ written, write blank child parent = some written ∧
      Linked blank base (written :: below) ∧
      contents blank base (written :: below) = contents blank base (child :: parent :: below) := by
  cases child with
  | none => exact ⟨parent, rfl, linked, rfl⟩
  | some slot =>
      obtain ⟨promise, rest⟩ := linked
      cases dirty : slot.dirty with
      | false =>
          refine ⟨parent, by simp [write, dirty], rest, ?_⟩
          rw [contents_some, promise.copied dirty]
      | true =>
          cases parent with
          | none =>
              have fresh : slot.fresh = true := by
                by_contra stale
                have holds := promise.stale (by simpa using stale)
                cases holds
              have nothing := promise.fresh fresh
              rw [contents_none] at nothing
              cases kind : blank slot.value with
              | true =>
                  refine ⟨none, by simp [write, dirty, kind], rest, ?_⟩
                  rw [contents_none, nothing, contents_some, visible_some_blank _ kind]
              | false =>
                  refine ⟨some ⟨slot.value, true, true⟩, by simp [write, dirty, kind, fresh],
                    ⟨⟨fun _ => nothing, by simp, by simp⟩, rest⟩, rfl⟩
          | some here =>
              obtain ⟨promised, deeper⟩ := rest
              by_cases gone : here.fresh = true ∧ blank slot.value = true
              · refine ⟨none, by simp [write, dirty, gone], deeper, ?_⟩
                rw [contents_none, promised.fresh gone.1, contents_some,
                  visible_some_blank _ gone.2]
              · refine ⟨some ⟨slot.value, true, here.fresh⟩, ?_,
                  ⟨⟨promised.fresh, promised.stale, by simp⟩, deeper⟩, rfl⟩
                simp [write, dirty]
                simpa using gone

theorem writeBase_correct (base : Option V) (child : Option (Slot V))
    (linked : Linked blank base [child]) :
    visible blank (writeBase blank child base) = contents blank base [child] := by
  cases child with
  | none => rfl
  | some slot =>
      cases dirty : slot.dirty with
      | false =>
          rw [contents_some, linked.1.copied dirty]
          simp [writeBase, dirty]
      | true =>
          cases kind : blank slot.value with
          | true => simp [writeBase, dirty, kind, visible_some_blank _ kind]
          | false => simp [writeBase, dirty, kind]

def flush (blank : V → Bool) : Nat → Option V → Column V → Option (Column V × Option V)
  | _, base, [] => some ([], base)
  | 0, base, [child] => some ([none], writeBase blank child base)
  | 0, base, child :: parent :: below =>
      (write blank child parent).map fun written => (none :: written :: below, base)
  | level + 1, base, slot :: below =>
      (flush blank level base below).map fun (below, base) => (slot :: below, base)

theorem flush_correct (level : Nat) (base : Option V) (column : Column V)
    (bound : level < column.length) (empty : ∀ slot ∈ column.take level, slot = none)
    (linked : Linked blank base column) :
    ∃ column' base', flush blank level base column = some (column', base') ∧
      Linked blank base' column' ∧
      levels blank base' column' =
        (levels blank base column).set (level + 1) (contents blank base (column.drop level)) := by
  induction level generalizing column with
  | zero =>
      match column with
      | [] => cases bound
      | [child] =>
          refine ⟨[none], writeBase blank child base, rfl, trivial, ?_⟩
          have taken := writeBase_correct base child linked
          simp [levels, taken]
      | child :: parent :: below =>
          obtain ⟨written, writes, kept, taken⟩ := write_correct base child parent below linked
          refine ⟨none :: written :: below, base, by simp [flush, writes], kept, ?_⟩
          simp [levels, taken]
  | succ level ih =>
      match column with
      | [] => cases bound
      | slot :: below =>
          have top : slot = none := empty slot (by simp)
          subst top
          obtain ⟨column', base', flushed, kept, shown⟩ := ih below (by simpa using bound)
            (fun slot present => empty slot (by simp [present])) linked
          refine ⟨none :: column', base', by simp [flush, flushed], kept, ?_⟩
          obtain ⟨after, head'⟩ := levels_cons blank base' column'
          obtain ⟨before, head⟩ := levels_cons blank base below
          have same : contents blank base' column' = contents blank base below := by
            rw [head', head, List.set_cons_succ] at shown
            exact (List.cons.inj shown).1
          simp only [levels, contents_none, List.drop_succ_cons, List.set_cons_succ]
          rw [same, shown]

end WriteBack
