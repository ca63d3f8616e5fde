import CryptoYen.Index.ChainVector
import CryptoYen.Index.CommonAncestor

set_option autoImplicit false

namespace CryptoYen

namespace ChainVector

section forks

variable (tree : SkipTree) (chain : ChainVector)

def descend : Nat → Option BlockPtr → Option BlockPtr
  | 0, _ => none
  | _ + 1, none => none
  | fuel + 1, some pindex =>
      if chain.contains tree.toBlockTree pindex then some pindex
      else descend fuel (tree.pprev pindex)

/-- Find the last common block between this chain and a block index entry; the outer none is a null
pointer that is followed. -/
def findFork (pindex : BlockPtr) : Option (Option BlockPtr) :=
  let start :=
    if chain.height < tree.height pindex then tree.getAncestor pindex chain.height
    else some (some pindex)
  start.map (descend tree chain (tree.height pindex + 1))

def setTips (tips : List (Option BlockPtr)) : ChainVector :=
  tips.foldl (fun chain pindex => chain.setTip tree.toBlockTree pindex) chain

end forks

variable {tree : SkipTree} {chain : ChainVector}

theorem lastCommon_self {a p : BlockPtr} (older : tree.AncestorOrSelf a p) :
    Ancestry.LastCommon tree.pprev a a p :=
  ⟨Ancestry.AncestorOrSelf.refl a, older, fun _ left _ => left⟩

theorem lastCommon_of_parent {c p q r : BlockPtr} (above : tree.pprev q = some r)
    (off : ¬ tree.AncestorOrSelf q p) (common : Ancestry.LastCommon tree.pprev c r p) :
    Ancestry.LastCommon tree.pprev c q p where
  left := Ancestry.AncestorOrSelf.step above common.left
  right := common.right
  last x left right := by
    rcases left.of_child above with same | further
    · rw [same] at off
      exact absurd right off
    · exact common.last x further right

theorem EndsAt.descend {p : BlockPtr} (ends : chain.EndsAt tree.toBlockTree p) (grown : tree.Grown)
    (fuel : Nat) (q : BlockPtr) (known : q ∈ tree.mapBlockIndex) (enough : tree.height q < fuel)
    (shared : ∃ x, tree.AncestorOrSelf x q ∧ tree.AncestorOrSelf x p) :
    ∃ c, ChainVector.descend tree chain fuel (some q) = some c ∧
      Ancestry.LastCommon tree.pprev c q p := by
  induction fuel generalizing q with
  | zero => omega
  | succ fuel ih =>
      unfold ChainVector.descend
      by_cases on : tree.AncestorOrSelf q p
      · rw [if_pos ((ends.contains_iff grown q).mpr on)]
        exact ⟨q, rfl, lastCommon_self on⟩
      · rw [if_neg (mt (ends.contains_iff grown q).mp on)]
        obtain ⟨x, left, right⟩ := shared
        cases above : tree.pprev q with
        | none =>
            rw [left.of_root above] at on
            exact absurd right on
        | some r =>
            obtain ⟨inside, level⟩ := grown.leveled q known r above
            have further : tree.AncestorOrSelf x r := by
              rcases left.of_child above with same | further
              · rw [same] at on
                exact absurd right on
              · exact further
            obtain ⟨c, found, common⟩ := ih r inside (by omega) ⟨x, further, right⟩
            exact ⟨c, found, lastCommon_of_parent above on common⟩

theorem shared_genesis (grown : tree.Grown) (oneGenesis : tree.OneGenesis) (a b : BlockPtr)
    (left : a ∈ tree.mapBlockIndex) (right : b ∈ tree.mapBlockIndex) :
    ∃ x, tree.AncestorOrSelf x a ∧ tree.AncestorOrSelf x b := by
  obtain ⟨g, toLeft, level⟩ := grown.leveled.exists_at_height grown.rooted left 0 (Nat.zero_le _)
  obtain ⟨h, toRight, bottom⟩ := grown.leveled.exists_at_height grown.rooted right 0 (Nat.zero_le _)
  have root (x : BlockPtr) (known : x ∈ tree.mapBlockIndex) (zero : tree.height x = 0) :
      tree.pprev x = none := by
    cases above : tree.pprev x with
    | none => rfl
    | some y =>
        have lower := (grown.leveled x known y above).2
        omega
  have first := grown.leveled.known_ancestor left toLeft
  have second := grown.leveled.known_ancestor right toRight
  have same := oneGenesis g first h second (root g first level) (root h second bottom)
  exact ⟨g, toLeft, same ▸ toRight⟩

theorem EndsAt.findFork {p : BlockPtr} (ends : chain.EndsAt tree.toBlockTree p)
    (built : tree.Built) (oneGenesis : tree.OneGenesis) (b : BlockPtr)
    (known : b ∈ tree.mapBlockIndex) :
    ∃ c, ChainVector.findFork tree chain b = some (some c) ∧
      Ancestry.LastCommon tree.pprev c b p := by
  have tall : chain.height = tree.height p := by
    rw [height, ends.fills.length]
    omega
  unfold ChainVector.findFork
  rw [tall]
  by_cases higher : (tree.height p : Int) < tree.height b
  · obtain ⟨a, walked, below, level⟩ := built.getAncestor known (tree.height p) (by omega)
    have inside := built.grown.leveled.known_ancestor known below
    obtain ⟨c, found, common⟩ := ends.descend built.grown (tree.height b + 1) a inside (by omega)
      (shared_genesis built.grown oneGenesis a p inside ends.known)
    rw [if_pos higher, walked]
    exact ⟨c, congrArg some found,
      SkipTree.lastCommon_of_lower built known below level ends.known common⟩
  · obtain ⟨c, found, common⟩ := ends.descend built.grown (tree.height b + 1) b known
      (Nat.lt_succ_self _) (shared_genesis built.grown oneGenesis b p known ends.known)
    rw [if_neg higher]
    exact ⟨c, congrArg some found, common⟩

structure Follows (tree : SkipTree) (p : BlockPtr) (chain : ChainVector) : Prop where
  length : chain.vChain.length = tree.height p + 1
  entries : ∀ h ≤ tree.height p, ∃ a, chain.vChain[h]? = some (some a) ∧
    tree.AncestorOrSelf a p ∧ tree.height a = h
  contains : ∀ b, chain.contains tree.toBlockTree b = true ↔ tree.AncestorOrSelf b p
  forks : ∀ b ∈ tree.mapBlockIndex, ∃ c, ChainVector.findFork tree chain b = some (some c) ∧
    Ancestry.LastCommon tree.pprev c b p

theorem EndsAt.follows {p : BlockPtr} (ends : chain.EndsAt tree.toBlockTree p)
    (built : tree.Built) (oneGenesis : tree.OneGenesis) : Follows tree p chain where
  length := ends.fills.length
  entries h below := by
    obtain ⟨a, older, level⟩ :=
      built.grown.leveled.exists_at_height built.grown.rooted ends.known h below
    rw [← level]
    exact ⟨a, ends.fills.placed a older, older, rfl⟩
  contains := ends.contains_iff built.grown
  forks := ends.findFork built oneGenesis

theorem setTips_coherent (grown : tree.Grown) (coherent : chain.Coherent tree.toBlockTree)
    (tips : List (Option BlockPtr)) (known : ∀ p, some p ∈ tips → p ∈ tree.mapBlockIndex) :
    (chain.setTips tree tips).Coherent tree.toBlockTree := by
  induction tips generalizing chain with
  | nil => exact coherent
  | cons pindex rest ih =>
      have next := setTip_coherent grown coherent pindex fun p same =>
        known p (same ▸ List.mem_cons_self)
      exact ih next fun p member => known p (List.mem_cons_of_mem pindex member)

theorem setTips_append (tips : List (Option BlockPtr)) (pindex : Option BlockPtr) :
    chain.setTips tree (tips ++ [pindex]) =
      (chain.setTips tree tips).setTip tree.toBlockTree pindex := by
  rw [setTips, setTips, List.foldl_append]
  rfl

theorem empty_findFork (b : BlockPtr) : ChainVector.findFork tree ⟨[]⟩ b = some none := by
  have below : (⟨[]⟩ : ChainVector).height < tree.height b := by
    rw [height]
    exact Int.lt_of_lt_of_le (by decide) (Int.natCast_nonneg _)
  have no_ancestor : tree.getAncestor b (⟨[]⟩ : ChainVector).height = some none := by
    rw [SkipTree.getAncestor, if_pos (Or.inr (by decide))]
  rw [ChainVector.findFork, if_pos below, no_ancestor]
  rfl

/-- After any calls of SetTip the vector is the chain of the last tip, or empty after a null one. -/
theorem setTips_follow (tree : SkipTree) (built : tree.Built) (oneGenesis : tree.OneGenesis)
    (tips : List (Option BlockPtr)) (known : ∀ p, some p ∈ tips → p ∈ tree.mapBlockIndex) :
    (∀ p, tips.getLast? = some (some p) → Follows tree p (setTips tree ⟨[]⟩ tips)) ∧
      (tips.getLast?.join = none →
        (setTips tree ⟨[]⟩ tips).vChain = [] ∧
        (∀ b, (setTips tree ⟨[]⟩ tips).contains tree.toBlockTree b = false) ∧
        ∀ b, ChainVector.findFork tree (setTips tree ⟨[]⟩ tips) b = some none) := by
  have empty : (⟨[]⟩ : ChainVector).Coherent tree.toBlockTree := Or.inl rfl
  have missing (b : BlockPtr) : (⟨[]⟩ : ChainVector).contains tree.toBlockTree b = false := by
    rw [contains, blockAt_natCast]
    rfl
  rcases List.eq_nil_or_concat tips with none_set | ⟨earlier, pindex, split⟩
  · rw [none_set]
    refine ⟨fun p last => ?_, fun _ => ⟨rfl, missing, empty_findFork⟩⟩
    cases last
  · rw [List.concat_eq_append] at split
    rw [split] at known ⊢
    have before := setTips_coherent built.grown empty earlier fun p member =>
      known p (List.mem_append_left [pindex] member)
    rw [setTips_append, List.getLast?_concat]
    constructor
    · intro p last
      cases last
      have inside := known p (List.mem_append_right earlier (List.mem_singleton_self _))
      exact (setTip_endsAt built.grown before p inside).follows built oneGenesis
    · intro cleared
      cases pindex with
      | none => exact ⟨rfl, missing, empty_findFork⟩
      | some p => cases cleared

end ChainVector

-- Blocks 1 and 2 on the genesis block have data, 3 is a header on them and 4 one beside them.
def forkTree : SkipTree where
  toBlockTree :=
    { BlockTree.empty with
      mapBlockIndex := [0, 1, 2, 3, 4]
      entry := fun p =>
        match p with
        | 0 => ⟨10, none, 0, 1, 1, 1, 0, ⟨5, true, true, false, false⟩⟩
        | 1 => ⟨11, some 0, 1, 2, 1, 2, 1, ⟨5, true, true, false, false⟩⟩
        | 2 => ⟨12, some 1, 2, 3, 1, 3, 2, ⟨5, true, true, false, false⟩⟩
        | 3 => ⟨13, some 2, 3, 4, 0, 0, 0, ⟨2, false, false, false, false⟩⟩
        | _ => ⟨14, some 0, 1, 2, 0, 0, 0, ⟨2, false, false, false, false⟩⟩ }
  pskip := fun p => if p = 0 then none else if p = 3 then some 1 else some 0

theorem forkTree_cases (p : BlockPtr) (known : p ∈ forkTree.mapBlockIndex) :
    p = 0 ∨ p = 1 ∨ p = 2 ∨ p = 3 ∨ p = 4 := by
  simpa [forkTree] using known

theorem forkTree_grown : forkTree.Grown where
  leveled p known q above := by
    rcases forkTree_cases p known with rfl | rfl | rfl | rfl | rfl
    · cases above
    all_goals
      cases above
      decide
  rooted := by decide

theorem forkTree_older (a p : BlockPtr) (known : p ∈ forkTree.mapBlockIndex) :
    forkTree.AncestorOrSelf a p ↔ a ∈ forkTree.ancestry p :=
  (forkTree_grown.leveled.mem_ancestry_iff known a).symm

theorem forkTree_built : forkTree.Built where
  grown := forkTree_grown
  keyed := by
    intro p known
    rcases forkTree_cases p known with rfl | rfl | rfl | rfl | rfl <;> decide
  skipped := by
    refine ⟨fun _ member => member, fun p member q above =>
      (forkTree_grown.leveled p member q above).1, fun p known positive => ?_⟩
    have leads (q : BlockPtr) (there : forkTree.pskip p = some q) (older : q ∈ forkTree.ancestry p)
        (level : forkTree.height q = getSkipHeight (forkTree.height p)) : forkTree.Skips p :=
      ⟨q, there, (forkTree_older q p known).mpr older, level⟩
    rcases forkTree_cases p known with rfl | rfl | rfl | rfl | rfl
    · cases positive
    · exact leads 0 rfl (by decide) (by decide)
    · exact leads 0 rfl (by decide) (by decide)
    · exact leads 1 rfl (by decide) (by decide)
    · exact leads 0 rfl (by decide) (by decide)

theorem forkTree_oneGenesis : forkTree.OneGenesis := by
  unfold BlockTree.OneGenesis
  decide

theorem setTips_follow_fork :
    (∀ p, [some 2, some 4, some 3, none, some 1].getLast? = some (some p) →
        ChainVector.Follows forkTree p
          (ChainVector.setTips forkTree ⟨[]⟩ [some 2, some 4, some 3, none, some 1])) ∧
      ([some 2, some 4, some 3, none, some 1].getLast?.join = none →
        (ChainVector.setTips forkTree ⟨[]⟩ [some 2, some 4, some 3, none, some 1]).vChain = [] ∧
        (∀ b, (ChainVector.setTips forkTree ⟨[]⟩ [some 2, some 4, some 3, none, some 1]).contains
          forkTree.toBlockTree b = false) ∧
        ∀ b, ChainVector.findFork forkTree
          (ChainVector.setTips forkTree ⟨[]⟩ [some 2, some 4, some 3, none, some 1]) b =
            some none) :=
  ChainVector.setTips_follow forkTree forkTree_built forkTree_oneGenesis
    [some 2, some 4, some 3, none, some 1] (by
      intro p member
      simp only [List.mem_cons, Option.some.injEq, List.not_mem_nil, or_false] at member
      rcases member with rfl | rfl | rfl | member | rfl
      · decide
      · decide
      · decide
      · cases member
      · decide)

end CryptoYen
