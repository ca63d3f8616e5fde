import CryptoYen.Library.Merkle
import CryptoYen.Primitives.Block

set_option autoImplicit false

namespace CryptoYen

def nodeAt (vMerkleTree : List Uint256) (i : Int) : Option Uint256 :=
  if i < 0 then none else vMerkleTree[i.toNat]?

-- nIndex ^ 1
def flipLast (nIndex : Int) : Int := if nIndex % 2 = 0 then nIndex + 1 else nIndex - 1

def branchFrom (vMerkleTree : List Uint256) : Nat → Nat → Nat → Int → Option (List Uint256)
  | 0, _, _, _ => none
  | fuel + 1, j, nSize, nIndex =>
      if nSize ≤ 1 then some []
      else
        match nodeAt vMerkleTree (j + min (flipLast nIndex) ((nSize : Int) - 1)) with
        | none => none
        | some node =>
            match branchFrom vMerkleTree fuel (j + nSize) ((nSize + 1) / 2) (nIndex / 2) with
            | none => none
            | some rest => some (node :: rest)

section hashing

variable [MerkleHasher]

-- One level of nSize nodes from position j of vMerkleTree on; none is an access out of range.
def hashLevel : Nat → Nat → Nat → Nat → List Uint256 → Bool → Option (List Uint256 × Bool)
  | 0, _, _, _, _, _ => none
  | fuel + 1, j, nSize, i, vMerkleTree, mutated =>
      if nSize ≤ i then some (vMerkleTree, mutated)
      else
        let i2 := min (i + 1) (nSize - 1)
        match vMerkleTree[j + i]?, vMerkleTree[j + i2]? with
        | some left, some right =>
            -- Two identical hashes at the end of the list at a particular level.
            let here := decide (i2 = i + 1) && decide (i2 + 1 = nSize) && decide (left = right)
            hashLevel fuel j nSize (i + 2) (vMerkleTree ++ [MerkleHasher.hashPair left right])
              (mutated || here)
        | _, _ => none

def hashLevels : Nat → Nat → Nat → List Uint256 → Bool → Option (List Uint256 × Bool)
  | 0, _, _, _, _ => none
  | fuel + 1, j, nSize, vMerkleTree, mutated =>
      if nSize ≤ 1 then some (vMerkleTree, mutated)
      else
        match hashLevel (nSize + 1) j nSize 0 vMerkleTree mutated with
        | none => none
        | some (next, here) => hashLevels fuel (j + nSize) ((nSize + 1) / 2) next here

def foldBranch : Uint256 → List Uint256 → Int → Uint256
  | hash, [], _ => hash
  | hash, node :: rest, nIndex =>
      foldBranch
        (if nIndex % 2 = 1 then MerkleHasher.hashPair node hash
        else MerkleHasher.hashPair hash node)
        rest (nIndex / 2)

namespace CBlock

def checkMerkleBranch (hash : Uint256) (vMerkleBranch : List Uint256) (nIndex : Int) : Uint256 :=
  if nIndex = -1 then 0 else foldBranch hash vMerkleBranch nIndex

variable [TxHasher] (block : CBlock)

def txids : List Uint256 := block.vtx.map CTransaction.getHash

def vMerkleTree : Option (List Uint256 × Bool) :=
  hashLevels (block.vtx.length + 1) 0 block.vtx.length block.txids false

-- vMerkleTree is the member as it stands: empty, or what BuildMerkleTree left.
def getMerkleBranch (vMerkleTree : List Uint256) (nIndex : Int) : Option (List Uint256) :=
  let built :=
    if vMerkleTree.isEmpty then block.vMerkleTree.map Prod.fst else some vMerkleTree
  match built with
  | none => none
  | some tree => branchFrom tree (block.vtx.length + 1) 0 block.vtx.length nIndex

end CBlock

end hashing

section levels

theorem getElem?_behind (before seen rest done : List Uint256) (i : Nat) :
    (before ++ (seen ++ rest) ++ done)[before.length + (seen.length + i)]? =
      (rest ++ done)[i]? := by
  rw [← Nat.add_assoc, ← List.length_append, ← List.append_assoc before, List.append_assoc _ rest,
    List.getElem?_append_right (Nat.le_add_right _ _), Nat.add_sub_cancel_left]

variable [MerkleHasher]

theorem merkleLevel_eq (nodes : List Uint256) :
    merkleLevel nodes = (Merkle.up MerkleHasher.hashPair nodes, Merkle.repeats nodes) := by
  induction nodes using Merkle.repeats.induct with
  | case1 => rfl
  | case2 x => rfl
  | case3 x y => rfl
  | case4 x y z rest ih =>
      simp only [merkleLevel, ih]
      rfl

omit [MerkleHasher] in
theorem height_le_length (leaves : List Uint256) : Merkle.height leaves ≤ leaves.length :=
  Nat.clog_le_of_le_pow (Nat.le_of_lt Nat.lt_two_pow_self)

theorem mutated_flat (leaves : List Uint256) (flat : Merkle.height leaves = 0) :
    Merkle.mutated MerkleHasher.hashPair leaves = false := by
  rw [Merkle.mutated, flat]
  rfl

theorem merkleRoot_eq (fuel : Nat) (leaves : List Uint256) (mutated : Bool)
    (some_leaf : leaves ≠ []) (enough : Merkle.height leaves ≤ fuel) :
    some (merkleRoot fuel leaves mutated).1 = Merkle.root MerkleHasher.hashPair leaves ∧
      (merkleRoot fuel leaves mutated).2 =
        (mutated || Merkle.mutated MerkleHasher.hashPair leaves) := by
  induction fuel generalizing leaves mutated with
  | zero =>
      have flat : Merkle.height leaves = 0 := by omega
      obtain ⟨x, rfl⟩ := Merkle.height_zero leaves flat some_leaf
      rw [mutated_flat [x] flat, Bool.or_false, Merkle.root, flat]
      exact ⟨rfl, rfl⟩
  | succ fuel ih =>
      rcases leaves with _ | ⟨x, _ | ⟨y, rest⟩⟩
      · exact absurd rfl some_leaf
      · have flat : Merkle.height [x] = 0 := Nat.clog_one_right 2
        rw [mutated_flat [x] flat, Bool.or_false, Merkle.root, flat]
        exact ⟨rfl, rfl⟩
      · have several : 2 ≤ (x :: y :: rest).length := by simp
        have height := Merkle.height_up MerkleHasher.hashPair (x :: y :: rest) several
        have step : merkleRoot (fuel + 1) (x :: y :: rest) mutated =
            merkleRoot fuel (merkleLevel (x :: y :: rest)).1
              (mutated || (merkleLevel (x :: y :: rest)).2) := rfl
        rw [step, merkleLevel_eq, Merkle.root_up _ _ several, Merkle.mutated_up _ _ several,
          ← Bool.or_assoc]
        exact ih (Merkle.up MerkleHasher.hashPair (x :: y :: rest)) _
          (Merkle.up_ne_nil _ _ several) (by omega)

theorem hashLevel_spec (before seen rest done : List Uint256) (mutated : Bool) (fuel : Nat)
    (enough : rest.length < fuel) :
    hashLevel fuel before.length (seen.length + rest.length) seen.length
        (before ++ (seen ++ rest) ++ done) mutated =
      some (before ++ (seen ++ rest) ++ (done ++ Merkle.up MerkleHasher.hashPair rest),
        mutated || Merkle.repeats rest) := by
  induction rest using Merkle.pairs.induct generalizing seen done mutated fuel with
  | case1 =>
      obtain ⟨fuel, rfl⟩ := Nat.exists_eq_succ_of_ne_zero (Nat.ne_of_gt enough)
      rw [hashLevel, if_pos (by simp)]
      simp [Merkle.up, Merkle.pairs, Merkle.repeats]
  | case2 x =>
      obtain ⟨fuel, rfl⟩ : ∃ more, fuel = more + 2 := ⟨fuel - 2, by simp at enough; omega⟩
      have self : min (seen.length + 1) (seen.length + [x].length - 1) = seen.length := by simp
      have apart : decide (seen.length = seen.length + 1) = false := by simp
      have first := getElem?_behind before seen [x] done 0
      rw [Nat.add_zero] at first
      rw [hashLevel, if_neg (by simp)]
      dsimp only
      rw [self, first, apart]
      simp only [List.cons_append, List.getElem?_cons_zero, Bool.false_and, Bool.or_false]
      rw [hashLevel, if_pos (by simp)]
      simp [Merkle.up, Merkle.pairs, Merkle.repeats]
  | case3 x y rest ih =>
      obtain ⟨fuel, rfl⟩ : ∃ more, fuel = more + 1 := ⟨fuel - 1, by omega⟩
      simp only [List.length_cons] at enough
      have next : min (seen.length + 1) (seen.length + (x :: y :: rest).length - 1) =
          seen.length + 1 := by
        simp only [List.length_cons]
        omega
      have first := getElem?_behind before seen (x :: y :: rest) done 0
      have second := getElem?_behind before seen (x :: y :: rest) done 1
      rw [Nat.add_zero] at first
      have apart : ¬ seen.length + (x :: y :: rest).length ≤ seen.length := by simp
      rw [hashLevel, if_neg apart]
      dsimp only
      rw [next, first, second]
      simp only [List.cons_append, List.getElem?_cons_zero, List.getElem?_cons_succ, decide_true,
        Bool.true_and]
      have later := ih (seen ++ [x, y]) (done ++ [MerkleHasher.hashPair x y])
        (mutated || (decide (seen.length + 1 + 1 = seen.length + (x :: y :: rest).length) &&
          decide (x = y))) fuel (by omega)
      have size : (seen ++ [x, y]).length + rest.length =
          seen.length + (x :: y :: rest).length := by
        simp only [List.length_append, List.length_cons, List.length_nil]
        omega
      have step : (seen ++ [x, y]).length = seen.length + 2 := by simp
      have same : before ++ (seen ++ [x, y] ++ rest) ++ (done ++ [MerkleHasher.hashPair x y]) =
          before ++ (seen ++ x :: y :: rest) ++ done ++ [MerkleHasher.hashPair x y] := by simp
      have flag : (decide (seen.length + 1 + 1 = seen.length + (x :: y :: rest).length) &&
          decide (x = y) || Merkle.repeats rest) = Merkle.repeats (x :: y :: rest) := by
        cases rest with
        | nil => simp [Merkle.repeats]
        | cons z rest =>
            have more : ¬ seen.length + 1 + 1 = seen.length + (x :: y :: z :: rest).length := by
              simp only [List.length_cons]
              omega
            rw [decide_eq_false more, Bool.false_and, Bool.false_or]
            rfl
      rw [size, step, same, Bool.or_assoc, flag] at later
      rw [later]
      simp [Merkle.up, Merkle.pairs]

theorem hashLevels_spec (fuel : Nat) (before nodes : List Uint256) (mutated : Bool)
    (some_node : nodes ≠ []) (enough : Merkle.height nodes < fuel) :
    hashLevels fuel before.length nodes.length (before ++ nodes) mutated =
      some (before ++ Merkle.tower MerkleHasher.hashPair (Merkle.height nodes) nodes,
        mutated || Merkle.mutated MerkleHasher.hashPair nodes) := by
  induction fuel generalizing before nodes mutated with
  | zero => omega
  | succ fuel ih =>
      unfold hashLevels
      split
      next short =>
        have flat : Merkle.height nodes = 0 := Nat.clog_of_right_le_one short 2
        rw [mutated_flat nodes flat, Bool.or_false, flat]
        rfl
      next long =>
        have several : 2 ≤ nodes.length := by omega
        have height := Merkle.height_up MerkleHasher.hashPair nodes several
        have inner := hashLevel_spec before [] nodes [] mutated (nodes.length + 1)
          (Nat.lt_succ_self _)
        simp only [List.length_nil, Nat.zero_add, List.nil_append, List.append_nil] at inner
        have outer := ih (before ++ nodes) (Merkle.up MerkleHasher.hashPair nodes)
          (mutated || Merkle.repeats nodes) (Merkle.up_ne_nil _ _ several) (by omega)
        rw [List.length_append, Merkle.up_length] at outer
        rw [inner]
        dsimp only
        rw [outer, Merkle.mutated_up _ _ several, ← Bool.or_assoc, height, List.append_assoc]
        rfl

theorem branchFrom_spec (fuel : Nat) (before nodes : List Uint256) (i : Nat) (x : Uint256)
    (here : nodes[i]? = some x) (enough : Merkle.height nodes < fuel) :
    ∃ branch, branchFrom (before ++ Merkle.tower MerkleHasher.hashPair (Merkle.height nodes) nodes)
        fuel before.length nodes.length i = some branch ∧
      some (foldBranch x branch i) = Merkle.root MerkleHasher.hashPair nodes := by
  induction fuel generalizing before nodes i x with
  | zero => omega
  | succ fuel ih =>
      obtain ⟨inside, _⟩ := List.getElem?_eq_some_iff.mp here
      unfold branchFrom
      split
      next short =>
        have flat : Merkle.height nodes = 0 := Nat.clog_of_right_le_one short 2
        have bottom : i = 0 := by omega
        refine ⟨[], rfl, ?_⟩
        rw [foldBranch, Merkle.root, flat, ← here, bottom]
        exact List.head?_eq_getElem?.symm
      next long =>
        have several : 2 ≤ nodes.length := by omega
        have height := Merkle.height_up MerkleHasher.hashPair nodes several
        generalize index : min (if i % 2 = 0 then i + 1 else i - 1) (nodes.length - 1) = s
        obtain ⟨sibling, beside⟩ : ∃ y, nodes[s]? = some y :=
          ⟨_, List.getElem?_eq_getElem (by omega)⟩
        have place : (before.length : Int) + min (flipLast i) ((nodes.length : Int) - 1) =
            ((before.length + s : Nat) : Int) := by
          unfold flipLast
          split <;> split at index <;> omega
        have found : nodeAt (before ++ Merkle.tower MerkleHasher.hashPair (Merkle.height nodes)
            nodes) ((before.length + s : Nat) : Int) = some sibling := by
          rw [nodeAt, if_neg (by omega), Int.toNat_natCast,
            List.getElem?_append_right (Nat.le_add_right _ _), Nat.add_sub_cancel_left, height,
            Merkle.tower, List.getElem?_append_left (by omega), beside]
        have parent := Merkle.up_sibling MerkleHasher.hashPair nodes i s x sibling here beside
          index.symm
        obtain ⟨rest, branch, root⟩ := ih (before ++ nodes) (Merkle.up MerkleHasher.hashPair nodes)
          (i / 2) _ parent (by omega)
        have half : (i : Int) / 2 = ((i / 2 : Nat) : Int) := by omega
        have tower : before ++ Merkle.tower MerkleHasher.hashPair (Merkle.height nodes) nodes =
            before ++ nodes ++ Merkle.tower MerkleHasher.hashPair
              (Merkle.height (Merkle.up MerkleHasher.hashPair nodes))
              (Merkle.up MerkleHasher.hashPair nodes) := by
          rw [height, List.append_assoc]
          rfl
        rw [List.length_append, Merkle.up_length] at branch
        rw [place, found]
        dsimp only
        rw [half, tower, branch]
        refine ⟨sibling :: rest, rfl, ?_⟩
        rw [Merkle.root_up _ _ several, ← root, foldBranch, half]
        congr 2
        rcases Nat.mod_two_eq_zero_or_one i with even | odd
        · rw [if_neg (by omega), if_neg (by omega)]
        · rw [if_pos (by omega), if_pos odd]

end levels

section blocks

variable [TxHasher] [MerkleHasher]

namespace CBlock

omit [MerkleHasher] in
theorem txids_ne_nil (block : CBlock) (some_tx : block.vtx ≠ []) : block.txids ≠ [] := by
  rw [txids, ne_eq, List.map_eq_nil_iff]
  exact some_tx

theorem buildMerkleTree_eq (block : CBlock) (some_tx : block.vtx ≠ []) :
    some block.buildMerkleTree.1 = Merkle.root MerkleHasher.hashPair block.txids ∧
      block.buildMerkleTree.2 = Merkle.mutated MerkleHasher.hashPair block.txids := by
  have enough := height_le_length block.txids
  rw [txids, List.length_map] at enough
  exact merkleRoot_eq block.vtx.length block.txids false (block.txids_ne_nil some_tx) enough

theorem vMerkleTree_eq (block : CBlock) (some_tx : block.vtx ≠ []) :
    block.vMerkleTree =
      some (Merkle.tower MerkleHasher.hashPair (Merkle.height block.txids) block.txids,
        block.buildMerkleTree.2) := by
  have length : block.vtx.length = block.txids.length := (List.length_map _).symm
  have enough := height_le_length block.txids
  rw [vMerkleTree, (block.buildMerkleTree_eq some_tx).2, length]
  exact hashLevels_spec (block.txids.length + 1) [] block.txids false
    (block.txids_ne_nil some_tx) (by omega)

theorem vMerkleTree_root (block : CBlock) :
    block.vMerkleTree.map (fun built => (built.1.getLast?.getD 0, built.2)) =
      some block.buildMerkleTree := by
  by_cases empty : block.vtx = []
  · simp [vMerkleTree, buildMerkleTree, txids, empty, hashLevels, merkleRoot]
  · obtain ⟨x, root, single⟩ := Merkle.root_isSome MerkleHasher.hashPair block.txids
      (block.txids_ne_nil empty)
    have same := (block.buildMerkleTree_eq empty).1
    rw [root, Option.some_inj] at same
    rw [block.vMerkleTree_eq empty, Option.map_some, Merkle.tower_getLast? _ _ _ (by simp [single]),
      single, ← same]
    rfl

/-- Two blocks whose trees have one root and no repeated nodes have the same transaction ids, if
nothing that is hashed in the two trees collides. -/
theorem buildMerkleTree_txids (a b : CBlock) (some_a : a.vtx ≠ []) (some_b : b.vtx ≠ [])
    (free : Merkle.CollisionFree MerkleHasher.hashPair a.txids b.txids) (root : Uint256)
    (built_a : a.buildMerkleTree = (root, false)) (built_b : b.buildMerkleTree = (root, false)) :
    a.txids = b.txids := by
  obtain ⟨root_a, flag_a⟩ := a.buildMerkleTree_eq some_a
  obtain ⟨root_b, flag_b⟩ := b.buildMerkleTree_eq some_b
  rw [built_a] at root_a flag_a
  rw [built_b] at root_b flag_b
  exact Merkle.eq_of_root MerkleHasher.hashPair a.txids b.txids (a.txids_ne_nil some_a)
    (b.txids_ne_nil some_b) flag_a.symm flag_b.symm free (root_a.symm.trans root_b)

end CBlock

end blocks

section witnesses

@[reducible] def lockTimeHasher : TxHasher := ⟨fun tx => BitVec.ofNat 256 tx.nLockTime⟩
@[reducible] def linearHasher : MerkleHasher := ⟨fun left right => 3 * left + 5 * right + 1000⟩

def threeTxBlock : CBlock where
  nVersion := 4
  hashPrevBlock := 0
  hashMerkleRoot := 0
  nTime := 0
  nBits := 0
  nNonce := 0
  vtx := [⟨1, [], [], 1⟩, ⟨1, [], [], 2⟩, ⟨1, [], [], 3⟩]
  vchBlockSig := []

def threeOlderBlock : CBlock :=
  { threeTxBlock with vtx := [⟨0, [], [], 1⟩, ⟨0, [], [], 2⟩, ⟨0, [], [], 3⟩] }

theorem threeTxBlock_txids : @CBlock.txids lockTimeHasher threeTxBlock = [1, 2, 3] := by decide

theorem linearHasher_hashed :
    Merkle.hashedPairs linearHasher.hashPair [1, 2, 3] = [(1, 2), (3, 3), (1013, 1024)] := by
  decide +kernel

theorem threeTxBlock_free :
    Merkle.CollisionFree linearHasher.hashPair (@CBlock.txids lockTimeHasher threeTxBlock)
      (@CBlock.txids lockTimeHasher threeOlderBlock) := by
  have older : @CBlock.txids lockTimeHasher threeOlderBlock = [1, 2, 3] := by decide
  have leaves (x : Uint256) (leaf : x ∈ [1, 2, 3])
      (q : Uint256 × Uint256) (inside : q ∈ Merkle.hashedPairs linearHasher.hashPair [1, 2, 3]) :
      x ≠ linearHasher.hashPair q.1 q.2 := by
    rw [linearHasher_hashed] at inside
    simp only [List.mem_cons, List.not_mem_nil, or_false] at leaf inside
    rcases leaf with rfl | rfl | rfl <;> rcases inside with rfl | rfl | rfl <;> decide
  rw [threeTxBlock_txids, older]
  refine ⟨?_, leaves, leaves⟩
  intro p inside q beside same
  rw [linearHasher_hashed] at inside beside
  simp only [List.mem_cons, List.not_mem_nil, or_false] at inside beside
  rcases inside with rfl | rfl | rfl <;> rcases beside with rfl | rfl | rfl <;>
    first | rfl | exact absurd same (by decide)

theorem buildMerkleTree_txids_three :
    @CBlock.txids lockTimeHasher threeTxBlock = @CBlock.txids lockTimeHasher threeOlderBlock :=
  @CBlock.buildMerkleTree_txids lockTimeHasher linearHasher threeTxBlock threeOlderBlock (by decide)
    (by decide) threeTxBlock_free 9159 (by decide) (by decide)

end witnesses

section blocks

variable [TxHasher] [MerkleHasher]

namespace CBlock

/-- The Merkle branch of each transaction leads from its id to the root, and no access to
vMerkleTree is out of range. -/
theorem checkMerkleBranch_root (block : CBlock) (vMerkleTree : List Uint256)
    (built : vMerkleTree = [] ∨ some vMerkleTree = block.vMerkleTree.map Prod.fst) (i : Nat)
    (tx : CTransaction) (listed : block.vtx[i]? = some tx) :
    ∃ branch, block.getMerkleBranch vMerkleTree i = some branch ∧
      checkMerkleBranch tx.getHash branch i = block.buildMerkleTree.1 := by
  have some_tx : block.vtx ≠ [] := by
    intro empty
    rw [empty] at listed
    cases listed
  have here : block.txids[i]? = some tx.getHash := by
    rw [txids, List.getElem?_map, listed]
    rfl
  have length : block.vtx.length = block.txids.length := (List.length_map _).symm
  have enough := height_le_length block.txids
  obtain ⟨branch, found, root⟩ := branchFrom_spec (block.txids.length + 1) [] block.txids i
    tx.getHash here (by omega)
  have tree := block.vMerkleTree_eq some_tx
  have cached : (if vMerkleTree.isEmpty then block.vMerkleTree.map Prod.fst
      else some vMerkleTree) = block.vMerkleTree.map Prod.fst := by
    rcases built with empty | same
    · rw [empty]
      rfl
    · rw [same]
      split <;> rfl
  refine ⟨branch, ?_, ?_⟩
  · rw [getMerkleBranch, cached, tree, Option.map_some, length]
    exact found
  · have forward : ¬ (i : Int) = -1 := by omega
    rw [checkMerkleBranch, if_neg forward]
    exact Option.some.inj (root.trans (block.buildMerkleTree_eq some_tx).1.symm)

end CBlock

end blocks

theorem checkMerkleBranch_root_three :
    ∃ branch, @CBlock.getMerkleBranch linearHasher lockTimeHasher threeTxBlock [] ((2 : Nat) : Int) =
        some branch ∧
      @CBlock.checkMerkleBranch linearHasher 3 branch ((2 : Nat) : Int) =
        (@CBlock.buildMerkleTree lockTimeHasher linearHasher threeTxBlock).1 :=
  @CBlock.checkMerkleBranch_root lockTimeHasher linearHasher threeTxBlock [] (Or.inl rfl) 2
    ⟨1, [], [], 3⟩ rfl

end CryptoYen
