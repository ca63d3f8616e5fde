import Mathlib.Data.List.Basic
import Mathlib.Data.List.Nodup
import Mathlib.Data.List.Perm.Subperm
import Mathlib.Order.Lattice
import Mathlib.Tactic.Common

set_option autoImplicit false

/-! Draws from a list in time order: each takes the free member with the lowest score up to a
deadline, and the first free member when none is that early. -/

namespace Draws

universe u v w

variable {P : Type u} {T : Type v} {K : Type w} [LinearOrder T] [LinearOrder K]
  (time : P → T) (score : P → K) (taken : P → Bool) (deadline : T)

def better (best : Option P) (p : P) : Option P :=
  match best with
  | none => some p
  | some q => if score p < score q then some p else some q

def draw : List P → Option P → Option P
  | [], best => best
  | p :: rest, best =>
      if best.isSome && decide (deadline < time p) then best
      else if taken p then draw rest best
      else draw rest (better score best p)

structure Drawn (before : P → P → Prop) (members : List P) (p : P) : Prop where
  member : p ∈ members
  free : taken p = false
  best : ∀ q ∈ members, taken q = false → time q ≤ deadline →
    time p ≤ deadline ∧ score p ≤ score q
  first : (∀ q ∈ members, taken q = false → deadline < time q) →
    ∀ q ∈ members, taken q = false → q = p ∨ before p q

structure Improves (members : List P) (held p : P) : Prop where
  source : p = held ∨ p ∈ members ∧ taken p = false ∧ time p ≤ deadline
  no_worse : score p ≤ score held
  least : ∀ q ∈ members, taken q = false → time q ≤ deadline → score p ≤ score q

variable {time score taken deadline}

theorem Improves.skip {p q : P} {rest : List P} {held : P}
    (passed : taken p = true ∨ score held ≤ score p)
    (improves : Improves time score taken deadline rest held q) :
    Improves time score taken deadline (p :: rest) held q where
  source := improves.source.imp_right fun later =>
    ⟨List.mem_cons_of_mem p later.1, later.2⟩
  no_worse := improves.no_worse
  least r member free early := by
    rcases List.mem_cons.mp member with rfl | later
    · rcases passed with isTaken | worse
      · rw [isTaken] at free
        cases free
      · exact le_trans improves.no_worse worse
    · exact improves.least r later free early

theorem Improves.replace {p q : P} {rest : List P} {held : P} (free : taken p = false)
    (early : time p ≤ deadline) (lower : score p < score held)
    (improves : Improves time score taken deadline rest p q) :
    Improves time score taken deadline (p :: rest) held q where
  source := by
    rcases improves.source with rfl | later
    · exact .inr ⟨List.mem_cons_self, free, early⟩
    · exact .inr ⟨List.mem_cons_of_mem p later.1, later.2⟩
  no_worse := le_trans improves.no_worse (le_of_lt lower)
  least r member r_free r_early := by
    rcases List.mem_cons.mp member with rfl | later
    · exact improves.no_worse
    · exact improves.least r later r_free r_early

theorem draw_improves (members : List P) (sorted : members.Pairwise fun p q => time p ≤ time q)
    (held : P) :
    ∃ p, draw time score taken deadline members (some held) = some p ∧
      Improves time score taken deadline members held p := by
  induction members generalizing held with
  | nil => exact ⟨held, rfl, .inl rfl, le_refl _, by simp⟩
  | cons p rest ih =>
      obtain ⟨later, rest_sorted⟩ := List.pairwise_cons.mp sorted
      by_cases late : deadline < time p
      · refine ⟨held, by simp [draw, late], .inl rfl, le_refl _, ?_⟩
        intro q member _ early
        have beyond : deadline < time q := by
          rcases List.mem_cons.mp member with rfl | inside
          · exact late
          · exact lt_of_lt_of_le late (later q inside)
        exact absurd early (not_le.mpr beyond)
      · by_cases isTaken : taken p = true
        · obtain ⟨q, drawn, improves⟩ := ih rest_sorted held
          exact ⟨q, by simpa [draw, late, isTaken] using drawn, improves.skip (.inl isTaken)⟩
        · have free : taken p = false := by simpa using isTaken
          by_cases lower : score p < score held
          · obtain ⟨q, drawn, improves⟩ := ih rest_sorted p
            exact ⟨q, by simpa [draw, late, free, better, lower] using drawn,
              improves.replace free (not_lt.mp late) lower⟩
          · obtain ⟨q, drawn, improves⟩ := ih rest_sorted held
            exact ⟨q, by simpa [draw, late, free, better, lower] using drawn,
              improves.skip (.inr (not_lt.mp lower))⟩

theorem Drawn.skip {before : P → P → Prop} {p q : P} {rest : List P} (isTaken : taken p = true)
    (drawn : Drawn time score taken deadline before rest q) :
    Drawn time score taken deadline before (p :: rest) q := by
  have inside (r : P) (member : r ∈ p :: rest) (free : taken r = false) : r ∈ rest := by
    rcases List.mem_cons.mp member with rfl | later
    · rw [isTaken] at free
      cases free
    · exact later
  constructor
  · exact List.mem_cons_of_mem p drawn.member
  · exact drawn.free
  · exact fun r member free early => drawn.best r (inside r member free) free early
  · intro late r member free
    exact drawn.first (fun s later => late s (List.mem_cons_of_mem p later)) r
      (inside r member free) free

theorem draw_drawn (before : P → P → Prop) (timely : ∀ p q, before p q → time p ≤ time q)
    (members : List P) (sorted : members.Pairwise before)
    (free : ∃ p ∈ members, taken p = false) :
    ∃ p, draw time score taken deadline members none = some p ∧
      Drawn time score taken deadline before members p := by
  induction members with
  | nil =>
      obtain ⟨p, member, _⟩ := free
      cases member
  | cons p rest ih =>
      obtain ⟨later, rest_sorted⟩ := List.pairwise_cons.mp sorted
      by_cases isTaken : taken p = true
      · have rest_free : ∃ q ∈ rest, taken q = false := by
          obtain ⟨q, member, q_free⟩ := free
          rcases List.mem_cons.mp member with rfl | inside
          · rw [isTaken] at q_free
            cases q_free
          · exact ⟨q, inside, q_free⟩
        obtain ⟨q, found, drawn⟩ := ih rest_sorted rest_free
        exact ⟨q, by simpa [draw, isTaken] using found, drawn.skip isTaken⟩
      · have p_free : taken p = false := by simpa using isTaken
        have in_time : rest.Pairwise fun q r => time q ≤ time r := rest_sorted.imp (timely _ _)
        have scanned : ∃ q, draw time score taken deadline rest (some p) = some q ∧
            Improves time score taken deadline rest p q := draw_improves rest in_time p
        obtain ⟨q, found, improves⟩ := scanned
        refine ⟨q, by simpa [draw, p_free, better] using found, ?_⟩
        have first_time (r : P) (member : r ∈ p :: rest) : time p ≤ time r := by
          rcases List.mem_cons.mp member with rfl | inside
          · exact le_refl _
          · exact timely p r (later r inside)
        constructor
        · rcases improves.source with rfl | inside
          · exact List.mem_cons_self
          · exact List.mem_cons_of_mem p inside.1
        · rcases improves.source with rfl | inside
          · exact p_free
          · exact inside.2.1
        · intro r member r_free early
          constructor
          · rcases improves.source with rfl | inside
            · exact le_trans (first_time r member) early
            · exact inside.2.2
          · rcases List.mem_cons.mp member with rfl | inside
            · exact improves.no_worse
            · exact improves.least r inside r_free early
        · intro late r member _
          rcases improves.source with rfl | inside
          · exact (List.mem_cons.mp member).imp_right (later r)
          · exact absurd inside.2.2
              (not_le.mpr (late q (List.mem_cons_of_mem p inside.1) inside.2.1))

theorem Drawn.congr {other : P → Bool} {before : P → P → Prop} {members : List P} {p : P}
    (drawn : Drawn time score taken deadline before members p)
    (agree : ∀ q ∈ members, taken q = other q) :
    Drawn time score other deadline before members p where
  member := drawn.member
  free := by rw [← agree p drawn.member, drawn.free]
  best q member free := drawn.best q member ((agree q member).trans free)
  first late q member free :=
    drawn.first (fun r inside r_free => late r inside ((agree r inside).symm.trans r_free)) q member
      ((agree q member).trans free)

section Sequence

variable [DecidableEq P] (time score) (before : P → P → Prop) (members : List P)
  (deadlines : Nat → T)

def Sequence (chosen : List P) : Prop :=
  ∀ i p, chosen[i]? = some p →
    Drawn time score (fun q => decide (q ∈ chosen.take i)) (deadlines i) before members p

variable {time score before members deadlines}

theorem Sequence.append {chosen : List P} {p : P}
    (sequence : Sequence time score before members deadlines chosen)
    (drawn : Drawn time score (fun q => decide (q ∈ chosen)) (deadlines chosen.length) before
      members p) : Sequence time score before members deadlines (chosen ++ [p]) := by
  intro i q found
  by_cases earlier : i < chosen.length
  · rw [List.getElem?_append_left earlier] at found
    rw [List.take_append_of_le_length (Nat.le_of_lt earlier)]
    exact sequence i q found
  · have last : i = chosen.length := by
      have bound := (List.getElem?_eq_some_iff.mp found).1
      rw [List.length_append, List.length_singleton] at bound
      omega
    subst last
    rw [List.getElem?_concat_length, Option.some.injEq] at found
    subst found
    rw [List.take_left]
    exact drawn

theorem Sequence.nodup {chosen : List P}
    (sequence : Sequence time score before members deadlines chosen) : chosen.Nodup := by
  rw [List.nodup_iff_getElem?_ne_getElem?]
  intro i j before_j inside same
  have found : chosen[j]? = some chosen[j] := List.getElem?_eq_getElem inside
  have free := (sequence j _ found).free
  rw [decide_eq_false_iff_not] at free
  apply free
  apply List.mem_of_getElem? (i := i)
  rw [List.getElem?_take_of_lt before_j, same, found]

theorem Sequence.subset {chosen : List P}
    (sequence : Sequence time score before members deadlines chosen) : chosen ⊆ members := by
  intro p member
  obtain ⟨i, found⟩ := List.mem_iff_getElem?.mp member
  exact (sequence i p found).member

omit [LinearOrder T] [LinearOrder K] in
theorem exists_free {chosen : List P} (distinct : members.Nodup)
    (short : chosen.length < members.length) : ∃ p ∈ members, p ∉ chosen := by
  by_contra covered
  have inside : members ⊆ chosen := fun p member => by
    by_contra outside
    exact covered ⟨p, member, outside⟩
  exact absurd (distinct.subperm inside).length_le (Nat.not_le.mpr short)

end Sequence

end Draws
