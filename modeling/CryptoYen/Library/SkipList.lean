import CryptoYen.Library.Ancestry

set_option autoImplicit false

namespace SkipList

universe u

section walk

variable {P : Type u} (parent skip : P → Option P) (skipHeight : Nat → Nat)
  (follows : Nat → Nat → Bool)

/-- The walk down to a height: by the skip pointer where that is worth it, else by the parent. The
outer none is a null pointer that is followed. -/
def walk (target : Nat) : Nat → Option P → Nat → Option (Option P)
  | 0, here, level => if level ≤ target then some here else none
  | fuel + 1, here, level =>
      if level ≤ target then some here
      else
        match here with
        | none => none
        | some p =>
            if follows target level then walk target fuel (skip p) (skipHeight level)
            else walk target fuel (parent p) (level - 1)

def Skips (height : P → Nat) (p : P) : Prop :=
  ∃ q, skip p = some q ∧ Ancestry.AncestorOrSelf parent q p ∧ height q = skipHeight (height p)

end walk

variable {P : Type u} {parent skip : P → Option P} {skipHeight : Nat → Nat}
  {follows : Nat → Nat → Bool} {known : P → Prop} {height : P → Nat}

theorem Skips.congr {other : P → Option P} {p : P} (same : other p = skip p)
    (skips : Skips parent skip skipHeight height p) : Skips parent other skipHeight height p := by
  obtain ⟨q, there, older, level⟩ := skips
  exact ⟨q, same.trans there, older, level⟩

theorem walk_spec (leveled : Ancestry.Leveled parent known height)
    (rooted : ∀ p, known p → parent p = none → height p = 0)
    (lower : ∀ level, 0 < level → skipHeight level < level)
    (reaches : ∀ target level, follows target level = true → target ≤ skipHeight level)
    (target fuel : Nat) (p : P) (here : known p) (enough : height p ≤ target + fuel)
    (skips : ∀ x, Ancestry.AncestorOrSelf parent x p → 0 < height x →
      Skips parent skip skipHeight height x)
    (below : target ≤ height p) :
    ∃ a, walk parent skip skipHeight follows target fuel (some p) (height p) = some (some a) ∧
      Ancestry.AncestorOrSelf parent a p ∧ height a = target := by
  induction fuel generalizing p with
  | zero =>
      have arrived : height p ≤ target := enough
      exact ⟨p, by rw [walk, if_pos arrived], Ancestry.AncestorOrSelf.refl p, by omega⟩
  | succ fuel ih =>
      unfold walk
      split
      next arrived => exact ⟨p, rfl, Ancestry.AncestorOrSelf.refl p, by omega⟩
      next above =>
        have positive : 0 < height p := by omega
        dsimp only
        split
        next follow =>
          obtain ⟨q, there, older, level⟩ := skips p (Ancestry.AncestorOrSelf.refl p) positive
          have less := lower (height p) positive
          have bounded := reaches target (height p) follow
          obtain ⟨a, walked, ancestor, at_target⟩ := ih q (leveled.known_ancestor here older)
            (by omega) (fun x older' => skips x (older'.trans older)) (by omega)
          rw [there, ← level]
          exact ⟨a, walked, ancestor.trans older, at_target⟩
        next =>
          cases up : parent p with
          | none =>
              have root := rooted p here up
              omega
          | some q =>
              obtain ⟨inside, level⟩ := leveled p here q up
              obtain ⟨a, walked, ancestor, at_target⟩ := ih q inside (by omega)
                (fun x older => skips x (Ancestry.AncestorOrSelf.step up older)) (by omega)
              have down : height p - 1 = height q := by omega
              rw [down]
              exact ⟨a, walked, Ancestry.AncestorOrSelf.step up ancestor, at_target⟩

end SkipList
