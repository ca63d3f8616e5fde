import CryptoYen.Index.Ancestor

set_option autoImplicit false

namespace CryptoYen

namespace BlockTree

variable (tree : BlockTree)

def OneGenesis : Prop :=
  ∀ p ∈ tree.mapBlockIndex, ∀ q ∈ tree.mapBlockIndex,
    tree.pprev p = none → tree.pprev q = none → p = q

-- LastCommonAncestor's loop; the outer none is its assertion.
def meet : Nat → Option BlockPtr → Option BlockPtr → Option (Option BlockPtr)
  | 0, _, _ => none
  | fuel + 1, pa, pb =>
      if pa = pb then some pa
      else
        match pa, pb with
        | some a, some b => meet fuel (tree.pprev a) (tree.pprev b)
        | _, _ => none

end BlockTree

namespace SkipTree

variable (tree : SkipTree)

def lastCommonAncestor (pa pb : BlockPtr) : Option (Option BlockPtr) :=
  if tree.height pb < tree.height pa then
    match tree.getAncestor pa (tree.height pb) with
    | none => none
    | some a => tree.meet (tree.height pb + 1) a (some pb)
  else if tree.height pa < tree.height pb then
    match tree.getAncestor pb (tree.height pa) with
    | none => none
    | some b => tree.meet (tree.height pa + 1) (some pa) b
  else tree.meet (tree.height pa + 1) (some pa) (some pb)

end SkipTree

namespace BlockTree

variable {tree : BlockTree}

theorem meet_spec (grown : tree.Grown) (oneGenesis : tree.OneGenesis) (fuel : Nat)
    (a b : BlockPtr) (left : a ∈ tree.mapBlockIndex) (right : b ∈ tree.mapBlockIndex)
    (level : tree.height a = tree.height b) (enough : tree.height a < fuel) :
    ∃ c, tree.meet fuel (some a) (some b) = some (some c) ∧
      Ancestry.LastCommon tree.pprev c a b := by
  induction fuel generalizing a b with
  | zero => omega
  | succ fuel ih =>
      unfold meet
      by_cases same : a = b
      · subst same
        exact ⟨a, if_pos rfl, Ancestry.AncestorOrSelf.refl a, Ancestry.AncestorOrSelf.refl a,
          fun x older _ => older⟩
      · rw [if_neg (fun both => same (Option.some.inj both))]
        dsimp only
        cases up : tree.pprev a with
        | none =>
            have bottom := grown.rooted a left up
            cases other : tree.pprev b with
            | none => exact absurd (oneGenesis a left b right up other) same
            | some r =>
                have lower := (grown.leveled b right r other).2
                omega
        | some q =>
            obtain ⟨inside, lower⟩ := grown.leveled a left q up
            cases other : tree.pprev b with
            | none =>
                have bottom := grown.rooted b right other
                omega
            | some r =>
                obtain ⟨beside, deeper⟩ := grown.leveled b right r other
                obtain ⟨c, met, toLeft, toRight, last⟩ := ih q r inside beside (by omega) (by omega)
                refine ⟨c, met, Ancestry.AncestorOrSelf.step up toLeft,
                  Ancestry.AncestorOrSelf.step other toRight, fun x older older' => ?_⟩
                -- neither of the two is an ancestor of the other
                rcases older.of_child up with rfl | above
                · exact absurd (grown.leveled.eq_of_height right older' level.symm).symm same
                · rcases older'.of_child other with rfl | beyond
                  · exact absurd (grown.leveled.eq_of_height left older level) same
                  · exact last x above beyond

end BlockTree

namespace SkipTree

variable {tree : SkipTree}

theorem lastCommon_of_lower (built : tree.Built) {a b c p : BlockPtr}
    (known : p ∈ tree.mapBlockIndex) (below : tree.AncestorOrSelf a p)
    (level : tree.height a = tree.height b) (inside : b ∈ tree.mapBlockIndex)
    (common : Ancestry.LastCommon tree.pprev c a b) : Ancestry.LastCommon tree.pprev c p b where
  left := common.left.trans below
  right := common.right
  last x older older' := by
    apply common.last x _ older'
    have bounded := built.grown.leveled.height_le inside older'
    exact built.grown.leveled.older_of_le known older below (by omega)

theorem Built.lastCommonAncestor (built : tree.Built) (oneGenesis : tree.OneGenesis)
    (a b : BlockPtr) (left : a ∈ tree.mapBlockIndex) (right : b ∈ tree.mapBlockIndex) :
    ∃ c, tree.lastCommonAncestor a b = some (some c) ∧
      Ancestry.LastCommon tree.pprev c a b := by
  unfold SkipTree.lastCommonAncestor
  split
  next higher =>
    obtain ⟨x, walked, below, level⟩ := built.getAncestor left (tree.height b) (by omega)
    have inside := built.grown.leveled.known_ancestor left below
    obtain ⟨c, met, common⟩ := BlockTree.meet_spec built.grown oneGenesis (tree.height b + 1) x b
      inside right level (by omega)
    rw [walked]
    exact ⟨c, met, lastCommon_of_lower built left below level right common⟩
  next =>
    split
    next higher =>
      obtain ⟨x, walked, below, level⟩ := built.getAncestor right (tree.height a) (by omega)
      have inside := built.grown.leveled.known_ancestor right below
      obtain ⟨c, met, common⟩ := BlockTree.meet_spec built.grown oneGenesis (tree.height a + 1) a x
        left inside level.symm (by omega)
      rw [walked]
      exact ⟨c, met, (lastCommon_of_lower built right below level left common.symm).symm⟩
    next =>
      exact BlockTree.meet_spec built.grown oneGenesis (tree.height a + 1) a b left right
        (by omega) (by omega)

end SkipTree

end CryptoYen
