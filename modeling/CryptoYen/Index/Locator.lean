import CryptoYen.Index.ChainVector

set_option autoImplicit false

namespace CryptoYen

def locatorDepth (n : Nat) : Nat := if n ≤ 10 then n else 9 + 2 ^ (n - 10)

def locatorStep (n : Nat) : Nat := if n ≤ 10 then 1 else 2 ^ (n - 10)

theorem locatorStep_succ (n : Nat) :
    locatorStep (n + 1) = if 10 < n + 1 then locatorStep n * 2 else locatorStep n := by
  unfold locatorStep
  rcases Nat.lt_trichotomy n 10 with fewer | rfl | more
  · simp only [show n + 1 ≤ 10 by omega, show n ≤ 10 by omega, show ¬ 10 < n + 1 by omega,
      ↓reduceIte]
  · rfl
  · have next : n + 1 - 10 = n - 10 + 1 := by omega
    simp only [show ¬ n + 1 ≤ 10 by omega, show ¬ n ≤ 10 by omega, show 10 < n + 1 by omega,
      ↓reduceIte, next, Nat.pow_succ]

theorem locatorDepth_succ (n : Nat) :
    locatorDepth (n + 1) = locatorDepth n + locatorStep n := by
  unfold locatorDepth locatorStep
  rcases Nat.lt_trichotomy n 10 with fewer | rfl | more
  · simp only [show n + 1 ≤ 10 by omega, show n ≤ 10 by omega, ↓reduceIte]
  · rfl
  · have next : n + 1 - 10 = n - 10 + 1 := by omega
    simp only [show ¬ n + 1 ≤ 10 by omega, show ¬ n ≤ 10 by omega, ↓reduceIte, next, Nat.pow_succ]
    omega

theorem locatorDepth_double (n : Nat) : locatorDepth (n + 1) ≤ 2 * (locatorDepth n + 1) := by
  have step : locatorStep n ≤ locatorDepth n + 2 := by
    unfold locatorStep locatorDepth
    split <;> omega
  rw [locatorDepth_succ]
  omega

def BlockTree.findForkInGlobalIndex (tree : BlockTree) (chain : ChainVector) :
    List Uint256 → Option BlockPtr
  | [] => chain.genesis
  | hash :: rest =>
      match tree.find hash with
      | none => findForkInGlobalIndex tree chain rest
      | some pindex =>
          if chain.contains tree pindex then some pindex
          else findForkInGlobalIndex tree chain rest

namespace SkipTree

variable (tree : SkipTree)

section locating

variable (chain : ChainVector)

/-- vHave from an entry on. The outer none is a null pointer that is followed. -/
def locate : Nat → Nat → Nat → Option BlockPtr → Option (List Uint256)
  | 0, _, _, _ => none
  | _ + 1, _, _, none => some []
  | fuel + 1, nStep, size, some pindex =>
      let hash := (tree.entry pindex).phashBlock
      -- Stop when we have added the genesis block.
      if tree.height pindex = 0 then some [hash]
      else
        -- Exponentially larger steps back, plus the genesis block.
        let nHeight : Int := max (tree.height pindex - nStep) 0
        let back :=
          if chain.contains tree.toBlockTree pindex then some (chain.blockAt nHeight)
          else tree.getAncestor pindex nHeight
        match back with
        | none => none
        | some next =>
            match locate fuel (if 10 < size + 1 then nStep * 2 else nStep) (size + 1) next with
            | none => none
            | some rest => some (hash :: rest)

def getLocator (pindex : Option BlockPtr) : Option (List Uint256) :=
  let start := pindex.or chain.tip
  tree.locate chain ((start.map tree.height).getD 0 + 1) 1 0 start

end locating

structure Visited (a : BlockPtr) (first : Nat) (blocks : List BlockPtr) : Prop where
  placed : ∀ i x, blocks[i]? = some x →
    tree.AncestorOrSelf x a ∧ tree.height x = tree.height a - locatorDepth (first + i)
  ends : ∃ g, blocks.getLast? = some g ∧ tree.height g = 0

variable {tree}

theorem Built.stepBack (built : tree.Built) {chain : ChainVector}
    (coherent : chain.Coherent tree.toBlockTree) {x : BlockPtr} (known : x ∈ tree.mapBlockIndex)
    (nStep : Nat) :
    ∃ b, (if chain.contains tree.toBlockTree x then
          some (chain.blockAt (max (tree.height x - nStep) 0))
        else tree.getAncestor x (max (tree.height x - nStep) 0)) = some (some b) ∧
      tree.AncestorOrSelf b x ∧ tree.height b = tree.height x - nStep := by
  have level : max ((tree.height x : Int) - nStep) 0 = ((tree.height x - nStep : Nat) : Int) := by
    omega
  rw [level]
  split
  next inside =>
    obtain ⟨p, ends, older⟩ := (coherent.contains_iff built.grown x).mp inside
    obtain ⟨b, below, at_level⟩ := built.grown.leveled.exists_at_height built.grown.rooted known
      (tree.height x - nStep) (by omega)
    refine ⟨b, ?_, below, at_level⟩
    rw [(ends.blockAt_iff built.grown _ b).mpr ⟨below.trans older, at_level⟩]
  next => exact built.getAncestor known _ (by omega)

theorem Built.locate_visited (built : tree.Built) {chain : ChainVector}
    (coherent : chain.Coherent tree.toBlockTree) {a : BlockPtr} (known : a ∈ tree.mapBlockIndex)
    (fuel n : Nat) (x : BlockPtr) (older : tree.AncestorOrSelf x a)
    (level : tree.height x = tree.height a - locatorDepth n) (enough : tree.height x < fuel) :
    ∃ blocks, tree.locate chain fuel (locatorStep n) n (some x) =
        some (blocks.map fun p => (tree.entry p).phashBlock) ∧
      tree.Visited a n blocks := by
  induction fuel generalizing n x with
  | zero => omega
  | succ fuel ih =>
      unfold locate
      dsimp only
      split
      next bottom =>
        refine ⟨[x], rfl, fun i y listed => ?_, x, rfl, bottom⟩
        cases i with
        | zero =>
            cases listed
            exact ⟨older, level⟩
        | succ i => simp at listed
      next =>
        have inside := built.grown.leveled.known_ancestor known older
        obtain ⟨b, stepped, below, lower⟩ := built.stepBack coherent inside (locatorStep n)
        rw [stepped]
        dsimp only
        have deeper : tree.height b = tree.height a - locatorDepth (n + 1) := by
          rw [locatorDepth_succ]
          omega
        have positive : 0 < locatorStep n := by
          unfold locatorStep
          split
          next => exact Nat.one_pos
          next => exact Nat.two_pow_pos _
        obtain ⟨blocks, located, placed, ends⟩ := ih (n + 1) b (below.trans older) deeper
          (by omega)
        rw [← locatorStep_succ, located]
        refine ⟨x :: blocks, rfl, fun i y listed => ?_, ?_⟩
        · cases i with
          | zero =>
              cases listed
              exact ⟨older, level⟩
          | succ i =>
              have found := placed i y listed
              rw [show n + 1 + i = n + (i + 1) by omega] at found
              exact found
        · obtain ⟨g, last, zero⟩ := ends
          exact ⟨g, by rw [List.getLast?_cons, last]; rfl, zero⟩

theorem findFork_hashes (keyed : tree.Keyed) (other : ChainVector) (blocks : List BlockPtr)
    (known : ∀ p ∈ blocks, p ∈ tree.mapBlockIndex) :
    tree.findForkInGlobalIndex other (blocks.map fun p => (tree.entry p).phashBlock) =
      (blocks.find? (other.contains tree.toBlockTree)).or other.genesis := by
  induction blocks with
  | nil => rfl
  | cons p rest ih =>
      rw [List.forall_mem_cons] at known
      rw [List.map_cons, BlockTree.findForkInGlobalIndex, keyed p known.1, List.find?_cons]
      dsimp only
      cases inside : other.contains tree.toBlockTree p with
      | true =>
          rw [if_pos rfl]
          rfl
      | false =>
          rw [if_neg Bool.false_ne_true]
          exact ih known.2

theorem Visited.first_common (built : tree.Built) {a c f tip : BlockPtr} {blocks : List BlockPtr}
    {other : ChainVector} (known : a ∈ tree.mapBlockIndex) (visited : tree.Visited a 0 blocks)
    (ends : other.EndsAt tree.toBlockTree tip) (common : Ancestry.LastCommon tree.pprev c a tip)
    (found : blocks.find? (other.contains tree.toBlockTree) = some f) :
    tree.AncestorOrSelf f a ∧ tree.AncestorOrSelf f tip ∧
      tree.height a - tree.height f ≤ 2 * (tree.height a - tree.height c) := by
  obtain ⟨inside, i, bound, at_i, earlier⟩ := List.find?_eq_some_iff_getElem.mp found
  have listed : blocks[i]? = some f := List.getElem?_eq_some_iff.mpr ⟨bound, at_i⟩
  obtain ⟨older, level⟩ := visited.placed i f listed
  refine ⟨older, (ends.contains_iff built.grown f).mp inside, ?_⟩
  cases i with
  | zero =>
      have top : locatorDepth (0 + 0) = 0 := rfl
      omega
  | succ k =>
      -- the entry before it lies above the fork
      have before : blocks[k]? = some blocks[k] := List.getElem?_eq_getElem (by omega)
      obtain ⟨passed, height⟩ := visited.placed k _ before
      have above : tree.height c < tree.height blocks[k] := by
        by_contra lower
        have shared := (built.grown.leveled.older_of_le known passed common.left (by omega)).trans
          common.right
        have contained := (ends.contains_iff built.grown _).mpr shared
        have missed := earlier k (Nat.lt_succ_self k)
        rw [contained] at missed
        cases missed
      have double := locatorDepth_double k
      rw [Nat.zero_add] at level height
      omega

/-- A locator ends with the genesis block, and the fork that another chain finds by it lies at
most twice as deep as the last common block. -/
theorem getLocator_fork (tree : SkipTree) (built : tree.Built) (chain : ChainVector)
    (coherent : chain.Coherent tree.toBlockTree) (pindex : Option BlockPtr) (a : BlockPtr)
    (start : pindex.or chain.tip = some a) (known : a ∈ tree.mapBlockIndex) :
    ∃ vHave g, tree.getLocator chain pindex = some vHave ∧
      vHave.getLast? = some (tree.entry g).phashBlock ∧
      tree.AncestorOrSelf g a ∧ tree.height g = 0 ∧
      ∀ other tip, other.EndsAt tree.toBlockTree tip → other.genesis = some g →
        ∃ f c, tree.findForkInGlobalIndex other vHave = some f ∧
          Ancestry.LastCommon tree.pprev c a tip ∧
          tree.AncestorOrSelf f a ∧ tree.AncestorOrSelf f tip ∧
          tree.height a - tree.height f ≤ 2 * (tree.height a - tree.height c) := by
  obtain ⟨blocks, located, visited⟩ := built.locate_visited coherent known (tree.height a + 1) 0 a
    (Ancestry.AncestorOrSelf.refl a) rfl (Nat.lt_succ_self _)
  obtain ⟨g, last, bottom⟩ := visited.ends
  have ancestors : ∀ x ∈ blocks, tree.AncestorOrSelf x a := by
    intro x member
    obtain ⟨i, listed⟩ := List.mem_iff_getElem?.mp member
    exact (visited.placed i x listed).1
  have member : g ∈ blocks := List.mem_of_getLast? last
  refine ⟨blocks.map fun p => (tree.entry p).phashBlock, g, ?_, ?_, ancestors g member, bottom,
    fun other tip ends genesis => ?_⟩
  · simp only [getLocator, start, Option.map_some, Option.getD_some]
    exact located
  · rw [List.getLast?_map, last]
    rfl
  · have shared := (ends.genesis_iff built.grown g).mp genesis
    obtain ⟨c, common⟩ := built.grown.leveled.exists_lastCommon known
      ⟨g, ancestors g member, shared.1⟩
    rw [findFork_hashes built.keyed other blocks
      (fun x inside => built.grown.leveled.known_ancestor known (ancestors x inside))]
    cases found : blocks.find? (other.contains tree.toBlockTree) with
    | none =>
        have missed := List.find?_eq_none.mp found g member
        exact absurd ((ends.contains_iff built.grown g).mpr shared.1) missed
    | some f =>
        exact ⟨f, c, rfl, common, visited.first_common built known ends common found⟩

theorem skipLine_built : (skipLine 16).Built where
  grown := line_grown 16
  keyed := by
    have found : ∀ p ∈ List.range 16,
        (skipLine 16).find ((skipLine 16).entry p).phashBlock = some p := by decide +kernel
    exact found
  skipped := skipLine_skipped 16

theorem getLocator_fork_line :
    ∃ vHave g,
      (skipLine 16).getLocator (ChainVector.setTip (skipLine 16).toBlockTree ⟨[]⟩ (some 10))
        (some 15) = some vHave ∧
      vHave.getLast? = some ((skipLine 16).entry g).phashBlock ∧
      (skipLine 16).AncestorOrSelf g 15 ∧ (skipLine 16).height g = 0 ∧
      ∀ other tip, other.EndsAt (skipLine 16).toBlockTree tip → other.genesis = some g →
        ∃ f c, (skipLine 16).findForkInGlobalIndex other vHave = some f ∧
          Ancestry.LastCommon (skipLine 16).pprev c 15 tip ∧
          (skipLine 16).AncestorOrSelf f 15 ∧ (skipLine 16).AncestorOrSelf f tip ∧
          (skipLine 16).height 15 - (skipLine 16).height f ≤
            2 * ((skipLine 16).height 15 - (skipLine 16).height c) := by
  have chain : (ChainVector.setTip (skipLine 16).toBlockTree ⟨[]⟩ (some 10)).Coherent
      (skipLine 16).toBlockTree :=
    ChainVector.setTip_coherent skipLine_built.grown (Or.inl rfl) (some 10)
      (by decide)
  exact getLocator_fork (skipLine 16) skipLine_built _ chain (some 15) 15 rfl (by decide)

example : (skipLine 16).getLocator ⟨[]⟩ (some 15) =
    some [15, 14, 13, 12, 11, 10, 9, 8, 7, 6, 5, 4, 2, 0] := by decide +kernel

end SkipTree

end CryptoYen
