import Mathlib.Data.List.Find
import CryptoYen.Index.Header
import CryptoYen.Library.SkipList

set_option autoImplicit false

namespace CryptoYen

def invertLowestOne (n : Nat) : Nat := n &&& (n - 1)

def getSkipHeight (height : Nat) : Nat :=
  if height < 2 then 0
  else if height % 2 = 1 then invertLowestOne (invertLowestOne (height - 1)) + 1
  else invertLowestOne height

def followsSkip (height heightWalk : Nat) : Bool :=
  let heightSkip := getSkipHeight heightWalk
  let heightSkipPrev := getSkipHeight (heightWalk - 1)
  heightSkip == height ||
    (decide (height < heightSkip) &&
      !(decide (heightSkipPrev + 2 < heightSkip) && decide (height ≤ heightSkipPrev)))

theorem invertLowestOne_lt (n : Nat) (positive : 0 < n) : invertLowestOne n < n := by
  have le : n &&& (n - 1) ≤ n - 1 := Nat.and_le_right
  rw [invertLowestOne]
  omega

theorem getSkipHeight_lt (height : Nat) (positive : 0 < height) : getSkipHeight height < height := by
  rw [getSkipHeight]
  split
  next => exact positive
  next tall =>
    split
    next odd =>
      have first := invertLowestOne_lt (height - 1) (by omega)
      by_cases zero : invertLowestOne (height - 1) = 0
      · rw [zero]
        have none_left : invertLowestOne 0 = 0 := rfl
        omega
      · have second := invertLowestOne_lt (invertLowestOne (height - 1)) (by omega)
        omega
    next => exact invertLowestOne_lt height positive

theorem le_getSkipHeight (height heightWalk : Nat) (follows : followsSkip height heightWalk = true) :
    height ≤ getSkipHeight heightWalk := by
  simp only [followsSkip, Bool.or_eq_true, beq_iff_eq, Bool.and_eq_true, decide_eq_true_eq]
    at follows
  cases follows with
  | inl same => exact Nat.le_of_eq same.symm
  | inr below => exact Nat.le_of_lt below.1

namespace BlockTree

def stepsBack (tree : BlockTree) : Nat → BlockPtr → Option BlockPtr
  | 0, p => some p
  | steps + 1, p =>
      match tree.pprev p with
      | none => none
      | some q => tree.stepsBack steps q

structure Grown (tree : BlockTree) : Prop where
  leveled : Ancestry.Leveled tree.pprev (· ∈ tree.mapBlockIndex) tree.height
  rooted : ∀ p ∈ tree.mapBlockIndex, tree.pprev p = none → tree.height p = 0

def Keyed (tree : BlockTree) : Prop :=
  ∀ p ∈ tree.mapBlockIndex, tree.find (tree.entry p).phashBlock = some p

theorem Grown.stepsBack {tree : BlockTree} (grown : tree.Grown) {a p : BlockPtr}
    (known : p ∈ tree.mapBlockIndex) (ancestor : tree.AncestorOrSelf a p) :
    tree.stepsBack (tree.height p - tree.height a) p = some a := by
  generalize steps : tree.height p - tree.height a = n
  induction n generalizing p with
  | zero =>
      have level := grown.leveled.height_le known ancestor
      rw [grown.leveled.same_height known ancestor (Ancestry.AncestorOrSelf.refl p) (by omega)]
      rfl
  | succ n ih =>
      rcases (Ancestry.ancestorOrSelf_iff a p).mp ancestor with rfl | ⟨q, above, older⟩
      · omega
      · obtain ⟨inside, level⟩ := grown.leveled p known q above
        have bounded := grown.leveled.height_le inside older
        simp only [BlockTree.stepsBack, above]
        exact ih inside older (by omega)

theorem Sprouts.height_eq {tree next : BlockTree} {pindexNew : BlockPtr}
    (sprouts : Sprouts tree next pindexNew) (p : BlockPtr) (known : p ∈ tree.mapBlockIndex) :
    next.height p = tree.height p := by
  simp only [height, sprouts.kept p known]

section adding

variable [BlockHasher] {tree : BlockTree} {block : CBlockHeader} {pindexNew : BlockPtr}

theorem addToBlockIndex_self (unknown : tree.find block.getHash = none) :
    (tree.addToBlockIndex block pindexNew).entry pindexNew = tree.newEntry block := by
  simp only [addToBlockIndex, unknown]
  exact Function.update_self ..

theorem addToBlockIndex_grown (grown : tree.Grown) (unknown : tree.find block.getHash = none)
    (fresh : pindexNew ∉ tree.mapBlockIndex) (fits : tree.WorkFits block) :
    (tree.addToBlockIndex block pindexNew).Grown := by
  have sprouts := addToBlockIndex_sprouts block pindexNew unknown fresh fits
  refine ⟨sprouts.leveled grown.leveled, fun p known root => ?_⟩
  rcases sprouts.split p known with rfl | inside
  · rw [pprev, addToBlockIndex_self unknown] at root
    rw [height, addToBlockIndex_self unknown]
    have orphan : tree.find block.hashPrevBlock = none := root
    simp [newEntry, orphan]
  · rw [sprouts.pprev_eq p inside] at root
    rw [sprouts.height_eq p inside]
    exact grown.rooted p inside root

theorem addToBlockIndex_keyed (keyed : tree.Keyed) (unknown : tree.find block.getHash = none)
    (fresh : pindexNew ∉ tree.mapBlockIndex) (fits : tree.WorkFits block) :
    (tree.addToBlockIndex block pindexNew).Keyed := by
  have sprouts := addToBlockIndex_sprouts block pindexNew unknown fresh fits
  have hash : ((tree.addToBlockIndex block pindexNew).entry pindexNew).phashBlock =
      block.getHash := by
    rw [addToBlockIndex_self unknown]
    rfl
  intro p known
  rw [find, sprouts.mapBlockIndex, List.find?_cons]
  rcases sprouts.split p known with rfl | inside
  · simp
  · have other : block.getHash ≠ (tree.entry p).phashBlock := by
      intro same
      have found := keyed p inside
      rw [← same, unknown] at found
      cases found
    rw [hash, sprouts.kept p inside, beq_false_of_ne other]
    have search : tree.mapBlockIndex.find? (fun q =>
        ((tree.addToBlockIndex block pindexNew).entry q).phashBlock ==
          (tree.entry p).phashBlock) = tree.find (tree.entry p).phashBlock := by
      apply List.find?_congr
      intro q listed
      rw [sprouts.kept q listed]
    exact search.trans (keyed p inside)

end adding

end BlockTree

structure SkipTree extends BlockTree where
  pskip : BlockPtr → Option BlockPtr

namespace SkipTree

variable (tree : SkipTree)

/-- The inner none is the null pointer; the outer none is one that is followed. -/
def getAncestor (p : BlockPtr) (height : Int) : Option (Option BlockPtr) :=
  if (tree.height p : Int) < height ∨ height < 0 then some none
  else
    SkipList.walk tree.pprev tree.pskip getSkipHeight followsSkip height.toNat (tree.height p)
      (some p) (tree.height p)

def buildSkip (p : BlockPtr) : Option SkipTree :=
  match tree.pprev p with
  | none => some tree
  | some q =>
      match tree.getAncestor q (getSkipHeight (tree.height p)) with
      | none => none
      | some ancestor => some { tree with pskip := Function.update tree.pskip p ancestor }

def buildSkips : List BlockPtr → SkipTree → Option SkipTree
  | [], tree => some tree
  | p :: rest, tree =>
      match tree.buildSkip p with
      | none => none
      | some next => buildSkips rest next

def ParentsFirst : List BlockPtr → List BlockPtr → Prop
  | _, [] => True
  | before, p :: rest =>
      (∀ q, tree.pprev p = some q → q ∈ before) ∧ ParentsFirst (p :: before) rest

def Skips (p : BlockPtr) : Prop :=
  SkipList.Skips tree.pprev tree.pskip getSkipHeight tree.height p

structure Skipped (done : List BlockPtr) : Prop where
  known : ∀ p ∈ done, p ∈ tree.mapBlockIndex
  upward : ∀ p ∈ done, ∀ q, tree.pprev p = some q → q ∈ done
  skips : ∀ p ∈ done, 0 < tree.height p → tree.Skips p

variable {tree}

theorem Skipped.ancestor {done : List BlockPtr} (skipped : tree.Skipped done) {a p : BlockPtr}
    (member : p ∈ done) (older : tree.AncestorOrSelf a p) : a ∈ done :=
  Ancestry.AncestorOrSelf.closed older (· ∈ done) skipped.upward member

theorem Skipped.getAncestor {done : List BlockPtr} (skipped : tree.Skipped done)
    (grown : tree.Grown) (p : BlockPtr) (member : p ∈ done) (height : Nat)
    (below : height ≤ tree.height p) :
    ∃ a, tree.getAncestor p height = some (some a) ∧ tree.AncestorOrSelf a p ∧
      tree.height a = height := by
  have inside : ¬ ((tree.height p : Int) < height ∨ (height : Int) < 0) := by omega
  rw [SkipTree.getAncestor, if_neg inside, Int.toNat_natCast]
  apply SkipList.walk_spec grown.leveled grown.rooted getSkipHeight_lt le_getSkipHeight height
  · exact skipped.known p member
  · omega
  · exact fun x older positive => skipped.skips x (skipped.ancestor member older) positive
  · exact below

theorem Skipped.getAncestor_ancestry {done : List BlockPtr} (skipped : tree.Skipped done)
    (grown : tree.Grown) (p : BlockPtr) (member : p ∈ done) (height : Int) :
    tree.getAncestor p height = some (tree.toBlockTree.getAncestor p height) := by
  have known := skipped.known p member
  by_cases outside : (tree.height p : Int) < height ∨ height < 0
  · rw [SkipTree.getAncestor, if_pos outside, BlockTree.getAncestor]
    symm
    rw [Option.some_inj, List.find?_eq_none]
    intro a older same
    have level := grown.leveled.height_le known (BlockTree.mem_ancestry p a older)
    rw [beq_iff_eq] at same
    omega
  · obtain ⟨level, rfl⟩ := Int.eq_ofNat_of_zero_le (a := height) (by omega)
    obtain ⟨a, walked, older, at_height⟩ := skipped.getAncestor grown p member level (by omega)
    have listed : a ∈ tree.ancestry p := (grown.leveled.mem_ancestry_iff known a).mpr older
    rw [walked, BlockTree.getAncestor]
    cases found : (tree.ancestry p).find? fun q => (tree.height q : Int) == level with
    | none =>
        have passed := List.find?_eq_none.mp found a listed
        simp [at_height] at passed
    | some b =>
        have same := List.find?_some found
        rw [beq_iff_eq] at same
        have other := BlockTree.mem_ancestry p b (List.mem_of_find?_eq_some found)
        rw [grown.leveled.same_height known older other (by omega)]

theorem Skipped.buildSkip {done : List BlockPtr} (skipped : tree.Skipped done)
    (grown : tree.Grown) (p : BlockPtr) (known : p ∈ tree.mapBlockIndex)
    (after : ∀ q, tree.pprev p = some q → q ∈ done) :
    ∃ next, tree.buildSkip p = some next ∧ next.toBlockTree = tree.toBlockTree ∧
      next.Skipped (p :: done) := by
  have upward : ∀ x ∈ p :: done, ∀ q, tree.pprev x = some q → q ∈ p :: done := by
    intro x member q above
    rcases List.mem_cons.mp member with rfl | later
    · exact List.mem_cons_of_mem x (after q above)
    · exact List.mem_cons_of_mem p (skipped.upward x later q above)
  have inside : ∀ x ∈ p :: done, x ∈ tree.mapBlockIndex :=
    List.forall_mem_cons.mpr ⟨known, skipped.known⟩
  cases above : tree.pprev p with
  | none =>
      have bottom := grown.rooted p known above
      refine ⟨tree, by simp only [SkipTree.buildSkip, above], rfl, inside, upward, ?_⟩
      intro x member positive
      rcases List.mem_cons.mp member with rfl | later
      · omega
      · exact skipped.skips x later positive
  | some q =>
      have level := (grown.leveled p known q above).2
      have less := getSkipHeight_lt (tree.height p) (by omega)
      obtain ⟨a, walked, older, at_height⟩ := skipped.getAncestor grown q (after q above)
        (getSkipHeight (tree.height p)) (by omega)
      refine ⟨{ tree with pskip := Function.update tree.pskip p (some a) },
        by simp only [SkipTree.buildSkip, above, walked], rfl, inside, upward, ?_⟩
      intro x member positive
      by_cases same : x = p
      · subst same
        exact ⟨a, Function.update_self .., Ancestry.AncestorOrSelf.step above older, at_height⟩
      · have later := (List.mem_cons.mp member).resolve_left same
        exact (skipped.skips x later positive).congr (Function.update_of_ne same _ _)

theorem ParentsFirst.of_same {next : SkipTree} {before order : List BlockPtr}
    (first : tree.ParentsFirst before order) (same : next.toBlockTree = tree.toBlockTree) :
    next.ParentsFirst before order := by
  induction order generalizing before with
  | nil => trivial
  | cons p rest ih => exact ⟨same ▸ first.1, ih first.2⟩

theorem Skipped.buildSkips {done : List BlockPtr} (skipped : tree.Skipped done)
    (grown : tree.Grown) (order : List BlockPtr) (known : ∀ p ∈ order, p ∈ tree.mapBlockIndex)
    (first : tree.ParentsFirst done order) :
    ∃ built, buildSkips order tree = some built ∧ built.toBlockTree = tree.toBlockTree ∧
      built.Skipped (order.reverse ++ done) := by
  induction order generalizing tree done with
  | nil => exact ⟨tree, rfl, rfl, skipped⟩
  | cons p rest ih =>
      rw [List.forall_mem_cons] at known
      obtain ⟨next, stepped, same, further⟩ := skipped.buildSkip grown p known.1 first.1
      have rest_known : ∀ x ∈ rest, x ∈ next.mapBlockIndex := same ▸ known.2
      obtain ⟨built, ran, unchanged, all⟩ := ih further (same ▸ grown) rest_known
        (first.2.of_same same)
      refine ⟨built, by simp only [SkipTree.buildSkips, stepped, ran], unchanged.trans same, ?_⟩
      rw [List.reverse_cons, List.append_assoc]
      exact all

def line (length : Nat) : SkipTree where
  toBlockTree :=
    { BlockTree.empty with
      mapBlockIndex := List.range length
      entry := fun p =>
        { TreeEntry.null with
          phashBlock := BitVec.ofNat 256 p
          pprev := if p = 0 then none else some (p - 1)
          nHeight := p } }
  pskip := fun _ => none

theorem line_pprev (length p q : Nat) :
    (line length).pprev p = some q ↔ p = q + 1 := by
  show (if p = 0 then none else some (p - 1)) = some q ↔ p = q + 1
  split
  next zero => simp [zero]
  next positive =>
    rw [Option.some_inj]
    omega

theorem line_leveled (length p q : Nat) (known : p < length)
    (above : (line length).pprev p = some q) : q < length ∧ p = q + 1 := by
  rw [line_pprev] at above
  exact ⟨by omega, above⟩

theorem line_rooted (length p : Nat) (root : (line length).pprev p = none) : p = 0 := by
  by_contra positive
  have above := (line_pprev length p (p - 1)).mpr (by omega)
  rw [root] at above
  cases above

theorem line_grown (length : Nat) : (line length).Grown where
  leveled p known q above := by
    obtain ⟨inside, level⟩ := line_leveled length p q (List.mem_range.mp known) above
    exact ⟨List.mem_range.mpr inside, level⟩
  rooted p _ root := line_rooted length p root

theorem line_older (length a steps : Nat) :
    (line length).AncestorOrSelf a (a + steps) := by
  induction steps with
  | zero => exact Ancestry.AncestorOrSelf.refl a
  | succ steps ih =>
      exact Ancestry.AncestorOrSelf.step ((line_pprev length (a + steps + 1) (a + steps)).mpr rfl) ih

def skipLine (length : Nat) : SkipTree :=
  { line length with pskip := fun p => if p = 0 then none else some (getSkipHeight p) }

theorem skipLine_skipped (length : Nat) :
    (skipLine length).Skipped (skipLine length).mapBlockIndex where
  known _ member := member
  upward p member q above := ((line_grown length).leveled p member q above).1
  skips p _ positive := by
    have less := getSkipHeight_lt p positive
    have older := line_older length (getSkipHeight p) (p - getSkipHeight p)
    rw [Nat.add_sub_cancel' (Nat.le_of_lt less)] at older
    exact ⟨getSkipHeight p, if_neg (Nat.ne_of_gt positive), older, rfl⟩

/-- Where every entry's skip pointer was set after its parent's, the walk ends at the block that
the parents lead to. -/
theorem getAncestor_stepsBack (tree : SkipTree) (grown : tree.Grown) (order : List BlockPtr)
    (known : ∀ p ∈ order, p ∈ tree.mapBlockIndex) (all : ∀ p ∈ tree.mapBlockIndex, p ∈ order)
    (first : tree.ParentsFirst [] order) :
    ∃ built, buildSkips order tree = some built ∧ built.toBlockTree = tree.toBlockTree ∧
      ∀ p ∈ tree.mapBlockIndex, ∀ height : Nat, height ≤ tree.height p →
        ∃ a, built.getAncestor p height = some (some a) ∧
          tree.stepsBack (tree.height p - height) p = some a := by
  have empty : tree.Skipped [] := ⟨by simp, by simp, by simp⟩
  obtain ⟨built, ran, same, skipped⟩ := empty.buildSkips grown order known first
  refine ⟨built, ran, same, fun p member height below => ?_⟩
  have done : p ∈ order.reverse ++ [] := by simpa using all p member
  obtain ⟨a, walked, older, at_height⟩ := skipped.getAncestor (same ▸ grown) p done height
    (by rw [same]; exact below)
  rw [same] at older at_height
  refine ⟨a, walked, ?_⟩
  rw [← at_height]
  exact grown.stepsBack member older

theorem getAncestor_stepsBack_line :
    ∃ built, buildSkips (List.range 6) (line 6) = some built ∧
      built.toBlockTree = (line 6).toBlockTree ∧
      ∀ p ∈ (line 6).mapBlockIndex, ∀ height : Nat, height ≤ (line 6).height p →
        ∃ a, built.getAncestor p height = some (some a) ∧
          (line 6).stepsBack ((line 6).height p - height) p = some a := by
  have first : (line 6).ParentsFirst [] (List.range 6) := by
    simp [ParentsFirst, List.range, List.range.loop, line_pprev]
  exact getAncestor_stepsBack (line 6) (line_grown 6) (List.range 6) (fun _ member => member)
    (fun _ member => member) first

theorem skips_congr {other : SkipTree} (grown : tree.Grown) {p : BlockPtr}
    (known : p ∈ tree.mapBlockIndex) (same : other.pskip p = tree.pskip p)
    (kept : ∀ x ∈ tree.mapBlockIndex, other.entry x = tree.entry x) (skips : tree.Skips p) :
    other.Skips p := by
  obtain ⟨a, there, older, level⟩ := skips
  have agree (x : BlockPtr) (inside : x ∈ tree.mapBlockIndex) :
      other.pprev x = tree.pprev x := by
    simp only [BlockTree.pprev, kept x inside]
  have inside := grown.leveled.known_ancestor known older
  refine ⟨a, same.trans there, older.congr _ grown.leveled.upward agree known, ?_⟩
  simp only [BlockTree.height, kept a inside, kept p known]
  exact level

structure Built (tree : SkipTree) : Prop where
  grown : tree.Grown
  keyed : tree.Keyed
  skipped : tree.Skipped tree.mapBlockIndex

theorem Built.getAncestor (built : tree.Built) {p : BlockPtr} (known : p ∈ tree.mapBlockIndex)
    (height : Nat) (below : height ≤ tree.height p) :
    ∃ a, tree.getAncestor p height = some (some a) ∧ tree.AncestorOrSelf a p ∧
      tree.height a = height :=
  built.skipped.getAncestor built.grown p known height below

section adding

variable [BlockHasher]

def addToBlockIndex (tree : SkipTree) (block : CBlockHeader) (pindexNew : BlockPtr) :
    Option SkipTree :=
  match tree.find block.getHash with
  | some _ => some tree
  | none =>
      buildSkip
        { toBlockTree := tree.toBlockTree.addToBlockIndex block pindexNew
          pskip := Function.update tree.pskip pindexNew none }
        pindexNew

theorem Built.addToBlockIndex (built : tree.Built) (block : CBlockHeader) (pindexNew : BlockPtr)
    (fresh : pindexNew ∉ tree.mapBlockIndex) (fits : tree.WorkFits block) :
    ∃ next, tree.addToBlockIndex block pindexNew = some next ∧
      next.toBlockTree = tree.toBlockTree.addToBlockIndex block pindexNew ∧ next.Built := by
  obtain ⟨grown, keyed, skipped⟩ := built
  cases unknown : tree.find block.getHash with
  | some p =>
      refine ⟨tree, by simp only [SkipTree.addToBlockIndex, unknown], ?_, grown, keyed, skipped⟩
      simp only [BlockTree.addToBlockIndex, unknown]
  | none =>
      have sprouts := BlockTree.addToBlockIndex_sprouts block pindexNew unknown fresh fits
      let added : SkipTree :=
        { toBlockTree := tree.toBlockTree.addToBlockIndex block pindexNew
          pskip := Function.update tree.pskip pindexNew none }
      have grown' : added.Grown := BlockTree.addToBlockIndex_grown grown unknown fresh fits
      have keyed' : added.Keyed := BlockTree.addToBlockIndex_keyed keyed unknown fresh fits
      have before : added.Skipped tree.mapBlockIndex := by
        refine ⟨sprouts.grown, fun p inside q above => ?_, fun p inside positive => ?_⟩
        · rw [sprouts.pprev_eq p inside] at above
          exact grown.leveled.upward p inside q above
        · have apart : p ≠ pindexNew := fun same => fresh (same ▸ inside)
          rw [sprouts.height_eq p inside] at positive
          exact skips_congr grown inside (Function.update_of_ne apart _ _) sprouts.kept
            (skipped.skips p inside positive)
      have member : pindexNew ∈ added.mapBlockIndex := by
        rw [sprouts.mapBlockIndex]
        exact List.mem_cons_self
      obtain ⟨next, stepped, same, done⟩ := before.buildSkip grown' pindexNew member
        (fun q above => (sprouts.parent q above).1)
      refine ⟨next, ?_, same, ?_⟩
      · simp only [SkipTree.addToBlockIndex, unknown]
        exact stepped
      · refine ⟨same ▸ grown', same ▸ keyed', ?_⟩
        rw [same, sprouts.mapBlockIndex]
        exact done

end adding

end SkipTree

end CryptoYen
