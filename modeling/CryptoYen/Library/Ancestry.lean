import Mathlib.Data.List.Basic
import Mathlib.Data.Nat.Find
import Mathlib.Logic.Relation
import Mathlib.Tactic.Common

set_option autoImplicit false

namespace Ancestry

universe u

variable {P : Type u} (parent : P → Option P)

def AncestorOrSelf (a p : P) : Prop := Relation.ReflTransGen (fun x y => parent x = some y) p a

def ancestry : Nat → P → List P
  | 0, _ => []
  | fuel + 1, p =>
      p :: match parent p with
        | none => []
        | some q => ancestry fuel q

def Leveled (known : P → Prop) (height : P → Nat) : Prop :=
  ∀ p, known p → ∀ q, parent p = some q → known q ∧ height p = height q + 1

structure LastCommon (c a b : P) : Prop where
  left : AncestorOrSelf parent c a
  right : AncestorOrSelf parent c b
  last : ∀ x, AncestorOrSelf parent x a → AncestorOrSelf parent x b → AncestorOrSelf parent x c

variable {parent}

theorem AncestorOrSelf.refl (p : P) : AncestorOrSelf parent p p := Relation.ReflTransGen.refl

theorem AncestorOrSelf.step {a q p : P} (above : parent p = some q)
    (ancestor : AncestorOrSelf parent a q) : AncestorOrSelf parent a p :=
  Relation.ReflTransGen.head above ancestor

theorem AncestorOrSelf.trans {a b c : P} (older : AncestorOrSelf parent a b)
    (newer : AncestorOrSelf parent b c) : AncestorOrSelf parent a c :=
  Relation.ReflTransGen.trans newer older

theorem ancestorOrSelf_iff (a p : P) :
    AncestorOrSelf parent a p ↔
      p = a ∨ ∃ q, parent p = some q ∧ AncestorOrSelf parent a q := by
  unfold AncestorOrSelf
  constructor
  · intro ancestor
    rcases Relation.ReflTransGen.cases_head ancestor with same | ⟨q, above, rest⟩
    · exact Or.inl same
    · exact Or.inr ⟨q, above, rest⟩
  · rintro (rfl | ⟨q, above, rest⟩)
    · exact Relation.ReflTransGen.refl
    · exact Relation.ReflTransGen.head above rest

theorem AncestorOrSelf.of_child {a p q : P} (above : parent p = some q)
    (ancestor : AncestorOrSelf parent a p) : p = a ∨ AncestorOrSelf parent a q := by
  rcases (ancestorOrSelf_iff a p).mp ancestor with same | ⟨other, up, older⟩
  · exact Or.inl same
  · rw [above] at up
    cases up
    exact Or.inr older

theorem AncestorOrSelf.of_root {a p : P} (root : parent p = none)
    (ancestor : AncestorOrSelf parent a p) : p = a := by
  rcases (ancestorOrSelf_iff a p).mp ancestor with same | ⟨other, up, _⟩
  · exact same
  · rw [root] at up
    cases up

theorem LastCommon.symm {a b c : P} (common : LastCommon parent c a b) :
    LastCommon parent c b a :=
  ⟨common.right, common.left, fun x left right => common.last x right left⟩

theorem AncestorOrSelf.closed {a p : P} (ancestor : AncestorOrSelf parent a p) (holds : P → Prop)
    (upward : ∀ p, holds p → ∀ q, parent p = some q → holds q) (here : holds p) : holds a := by
  induction ancestor with
  | refl => exact here
  | tail _ above ih => exact upward _ ih _ above

theorem AncestorOrSelf.congr {other : P → Option P} {a p : P} (known : P → Prop)
    (upward : ∀ p, known p → ∀ q, parent p = some q → known q)
    (agree : ∀ p, known p → other p = parent p) (here : known p)
    (ancestor : AncestorOrSelf parent a p) : AncestorOrSelf other a p := by
  induction ancestor with
  | refl => exact AncestorOrSelf.refl p
  | tail older above ih =>
      have inside : known _ := AncestorOrSelf.closed older known upward here
      exact Relation.ReflTransGen.tail ih ((agree _ inside).trans above)

theorem ancestry_cons (fuel : Nat) {p q : P} (above : parent p = some q) :
    ancestry parent (fuel + 1) p = p :: ancestry parent fuel q := by
  simp only [ancestry, above]

theorem mem_ancestry (fuel : Nat) (a p : P) (member : a ∈ ancestry parent fuel p) :
    AncestorOrSelf parent a p := by
  induction fuel generalizing p with
  | zero => cases member
  | succ fuel ih =>
      simp only [ancestry, List.mem_cons] at member
      rcases member with rfl | member
      · exact AncestorOrSelf.refl a
      · cases above : parent p with
        | none => simp [above] at member
        | some q =>
            simp only [above] at member
            exact AncestorOrSelf.step above (ih q member)

theorem ancestry_congr {other : P → Option P} (known : P → Prop)
    (upward : ∀ p, known p → ∀ q, parent p = some q → known q)
    (agree : ∀ p, known p → other p = parent p) (fuel : Nat) (p : P) (here : known p) :
    ancestry other fuel p = ancestry parent fuel p := by
  induction fuel generalizing p with
  | zero => rfl
  | succ fuel ih =>
      simp only [ancestry, agree p here]
      cases above : parent p with
      | none => rfl
      | some q => simp only [ih q (upward p here q above)]

namespace Leveled

variable {known : P → Prop} {height : P → Nat}

theorem upward (leveled : Leveled parent known height) (p : P) (here : known p) (q : P)
    (above : parent p = some q) : known q := (leveled p here q above).1

theorem known_ancestor (leveled : Leveled parent known height) {a p : P} (here : known p)
    (ancestor : AncestorOrSelf parent a p) : known a :=
  ancestor.closed known leveled.upward here

theorem height_le (leveled : Leveled parent known height) {a p : P} (here : known p)
    (ancestor : AncestorOrSelf parent a p) : height a ≤ height p := by
  induction ancestor with
  | refl => exact Nat.le_refl _
  | tail older above ih =>
      have level := (leveled _ (leveled.known_ancestor here older) _ above).2
      omega

theorem total {a c p : P} (first : AncestorOrSelf parent a p) (second : AncestorOrSelf parent c p) :
    AncestorOrSelf parent c a ∨ AncestorOrSelf parent a c := by
  have functional : Relator.RightUnique fun x y : P => parent x = some y := by
    intro x y z left right
    exact Option.some.inj (left.symm.trans right)
  exact Relation.ReflTransGen.total_of_right_unique functional first second

theorem eq_of_height (leveled : Leveled parent known height) {a c : P} (inside : known a)
    (ancestor : AncestorOrSelf parent c a) (level : height a = height c) : a = c := by
  rcases (ancestorOrSelf_iff c a).mp ancestor with same | ⟨q, parent, older⟩
  · exact same
  · obtain ⟨inside, lower⟩ := leveled a inside q parent
    have bounded := leveled.height_le inside older
    omega

theorem older_of_le (leveled : Leveled parent known height) {a c p : P} (here : known p)
    (first : AncestorOrSelf parent a p) (second : AncestorOrSelf parent c p)
    (level : height a ≤ height c) : AncestorOrSelf parent a c := by
  rcases total first second with down | up
  · have inside := leveled.known_ancestor here first
    have bounded := leveled.height_le inside down
    rw [leveled.eq_of_height inside down (Nat.le_antisymm level bounded)]
    exact AncestorOrSelf.refl c
  · exact up

theorem same_height (leveled : Leveled parent known height) {a c p : P} (here : known p)
    (first : AncestorOrSelf parent a p) (second : AncestorOrSelf parent c p)
    (level : height a = height c) : a = c := by
  have older := leveled.older_of_le here first second (Nat.le_of_eq level)
  exact (leveled.eq_of_height (leveled.known_ancestor here second) older level.symm).symm

theorem exists_at_height (leveled : Leveled parent known height)
    (rooted : ∀ p, known p → parent p = none → height p = 0) {p : P} (here : known p)
    (level : Nat) (below : level ≤ height p) :
    ∃ a, AncestorOrSelf parent a p ∧ height a = level := by
  generalize steps : height p - level = n
  induction n generalizing p with
  | zero => exact ⟨p, AncestorOrSelf.refl p, by omega⟩
  | succ n ih =>
      cases above : parent p with
      | none =>
          have root := rooted p here above
          omega
      | some q =>
          obtain ⟨inside, lower⟩ := leveled p here q above
          obtain ⟨a, older, at_level⟩ := ih inside (by omega) (by omega)
          exact ⟨a, AncestorOrSelf.step above older, at_level⟩

theorem exists_lastCommon (leveled : Leveled parent known height) {a b : P} (here : known a)
    (shared : ∃ x, AncestorOrSelf parent x a ∧ AncestorOrSelf parent x b) :
    ∃ c, LastCommon parent c a b := by
  classical
  -- the highest of the common ancestors
  have bounded : ∀ level, (∃ x, AncestorOrSelf parent x a ∧ AncestorOrSelf parent x b ∧
      height x = level) → level ≤ height a := by
    rintro level ⟨x, older, _, rfl⟩
    exact leveled.height_le here older
  obtain ⟨first, left, right⟩ := shared
  have top := Nat.findGreatest_spec (P := fun level => ∃ x, AncestorOrSelf parent x a ∧
    AncestorOrSelf parent x b ∧ height x = level)
    (bounded (height first) ⟨first, left, right, rfl⟩) ⟨first, left, right, rfl⟩
  obtain ⟨c, cleft, cright, level⟩ := top
  refine ⟨c, cleft, cright, fun x xleft xright => ?_⟩
  have reached := Nat.le_findGreatest (P := fun level => ∃ x, AncestorOrSelf parent x a ∧
    AncestorOrSelf parent x b ∧ height x = level)
    (bounded (height x) ⟨x, xleft, xright, rfl⟩) ⟨x, xleft, xright, rfl⟩
  exact leveled.older_of_le here xleft cleft (by omega)

theorem mem_ancestry_iff (leveled : Leveled parent known height) {p : P} (here : known p) (a : P) :
    a ∈ ancestry parent (height p + 1) p ↔ AncestorOrSelf parent a p := by
  constructor
  · exact mem_ancestry (height p + 1) a p
  · intro ancestor
    generalize level : height p = fuel
    induction fuel generalizing p with
    | zero =>
        rcases (ancestorOrSelf_iff a p).mp ancestor with rfl | ⟨q, above, _⟩
        · simp [ancestry]
        · have lower := (leveled p here q above).2
          omega
    | succ fuel ih =>
        rcases (ancestorOrSelf_iff a p).mp ancestor with rfl | ⟨q, above, rest⟩
        · simp [ancestry]
        · have lower := (leveled p here q above).2
          have later := ih (leveled.upward p here q above) rest (by omega)
          rw [ancestry_cons (fuel + 1) above]
          exact List.mem_cons_of_mem p later

theorem ancestry_step (leveled : Leveled parent known height) {p q : P} (here : known p)
    (above : parent p = some q) :
    ancestry parent (height p + 1) p = p :: ancestry parent (height q + 1) q := by
  rw [(leveled p here q above).2]
  exact ancestry_cons (height q + 1) above

theorem mem_walk_iff (leveled : Leveled parent known height) (keep : P → Bool) {p : P}
    (here : known p) (x : P) :
    x ∈ (ancestry parent (height p + 1) p).takeWhile keep ↔
      AncestorOrSelf parent x p ∧
        ∀ z, AncestorOrSelf parent x z → AncestorOrSelf parent z p → keep z = true := by
  generalize level : height p = n
  induction n using Nat.strong_induction_on generalizing p with
  | _ n ih =>
      subst level
      cases kept : keep p with
      | false =>
          have empty : (ancestry parent (height p + 1) p).takeWhile keep = [] := by
            simp [ancestry, kept]
          rw [empty]
          constructor
          · intro member
            cases member
          · rintro ⟨older, between⟩
            have passed := between p older (AncestorOrSelf.refl p)
            rw [kept] at passed
            cases passed
      | true =>
          have only (z : P) (up : AncestorOrSelf parent p z) (down : AncestorOrSelf parent z p) :
              z = p := by
            have inside := leveled.known_ancestor here down
            have bounded := leveled.height_le here down
            have other := leveled.height_le inside up
            exact leveled.eq_of_height inside up (by omega)
          have first : AncestorOrSelf parent p p ∧
              ∀ z, AncestorOrSelf parent p z → AncestorOrSelf parent z p → keep z = true :=
            ⟨AncestorOrSelf.refl p, fun z up down => by rw [only z up down, kept]⟩
          cases above : parent p with
          | none =>
              have walk : (ancestry parent (height p + 1) p).takeWhile keep = [p] := by
                simp [ancestry, kept, above]
              rw [walk, List.mem_singleton]
              constructor
              · rintro rfl
                exact first
              · rintro ⟨older, _⟩
                exact (older.of_root above).symm
          | some q =>
              obtain ⟨inside, lower⟩ := leveled p here q above
              have rest := ih (height q) (by omega) inside rfl
              rw [leveled.ancestry_step here above, List.takeWhile_cons, kept, if_pos rfl,
                List.mem_cons, rest]
              constructor
              · rintro (rfl | ⟨older, between⟩)
                · exact first
                · refine ⟨AncestorOrSelf.step above older, fun z up down => ?_⟩
                  rcases down.of_child above with rfl | later
                  · exact kept
                  · exact between z up later
              · rintro ⟨older, between⟩
                rcases older.of_child above with same | later
                · exact Or.inl same.symm
                · exact Or.inr ⟨later,
                    fun z up down => between z up (AncestorOrSelf.step above down)⟩

end Leveled

theorem before_descends [DecidableEq P] (fuel : Nat) (p x met : P)
    (meets : met ∈ ancestry parent fuel p)
    (passed : x ∈ (ancestry parent fuel p).takeWhile fun y => decide (y ≠ met)) :
    AncestorOrSelf parent met x := by
  induction fuel generalizing p with
  | zero => cases meets
  | succ fuel ih =>
      have reached := mem_ancestry (fuel + 1) met p meets
      simp only [ancestry] at meets passed
      by_cases same : p = met
      · simp [same] at passed
      · simp only [List.takeWhile_cons, ne_eq, same, not_false_eq_true, decide_true, ↓reduceIte,
          List.mem_cons] at passed
        simp only [List.mem_cons, Ne.symm same, false_or] at meets
        rcases passed with rfl | passed
        · exact reached
        · cases above : parent p with
          | none => simp [above] at meets
          | some q =>
              simp only [above] at meets passed
              exact ih q meets passed

end Ancestry
