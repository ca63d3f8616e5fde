import CryptoYen.Consensus.CheckTransaction
import CryptoYen.Library.Bitmap
import CryptoYen.Library.PartialMerkle
import CryptoYen.Primitives.Format
import CryptoYen.Primitives.MerkleTree

set_option autoImplicit false

namespace CryptoYen

structure CPartialMerkleTree where
  nTransactions : Nat
  vBits : List Bool
  vHash : List Uint256
  fBad : Bool
  deriving DecidableEq, Repr

namespace CPartialMerkleTree

-- The bits are written eight to a byte; fBad is not written.
def format : Codec String CPartialMerkleTree :=
  (Format.uint32.pair ((Format.vector Format.uint256).pair Format.bytes)).via
    (fun tree => (tree.nTransactions, tree.vHash, Bitmap.pack tree.vBits))
    fun (nTransactions, vHash, vBytes) => ⟨nTransactions, vBytes.flatMap Bitmap.bits, vHash, false⟩

variable (tree : CPartialMerkleTree)

def calcTreeWidth (height : Nat) : Nat := (tree.nTransactions + (1 <<< height) - 1) >>> height

def heightFrom : Nat → Nat → Option Nat
  | 0, _ => none
  | fuel + 1, nHeight =>
      if 1 < tree.calcTreeWidth nHeight then heightFrom fuel (nHeight + 1) else some nHeight

def parentOfMatch (height pos : Nat) (vMatch : List Bool) : Option Bool :=
  let first := pos <<< height
  let last := min ((pos + 1) <<< height) tree.nTransactions
  ((List.range' first (last - first)).mapM fun p => vMatch[p]?).map fun marks => marks.any id

section hashing

variable [MerkleHasher]

def calcHash (vTxid : List Uint256) : Nat → Nat → Option Uint256
  | 0, pos => vTxid[pos]?
  | height + 1, pos => do
      let left ← calcHash vTxid height (2 * pos)
      -- Beyond the end of the level the left hash is copied.
      let right ← if 2 * pos + 1 < tree.calcTreeWidth height then
          calcHash vTxid height (2 * pos + 1)
        else some left
      return MerkleHasher.hashPair left right

def storeHash (height pos : Nat) (vTxid : List Uint256) : Option CPartialMerkleTree := do
  let hash ← tree.calcHash vTxid height pos
  return { tree with vHash := tree.vHash ++ [hash] }

def traverseAndBuild (vTxid : List Uint256) (vMatch : List Bool) :
    Nat → Nat → CPartialMerkleTree → Option CPartialMerkleTree
  | 0, pos, tree => do
      let fParentOfMatch ← tree.parentOfMatch 0 pos vMatch
      storeHash { tree with vBits := tree.vBits ++ [fParentOfMatch] } 0 pos vTxid
  | height + 1, pos, tree => do
      let fParentOfMatch ← tree.parentOfMatch (height + 1) pos vMatch
      let marked := { tree with vBits := tree.vBits ++ [fParentOfMatch] }
      if fParentOfMatch then
        let left ← traverseAndBuild vTxid vMatch height (2 * pos) marked
        if 2 * pos + 1 < left.calcTreeWidth height then
          traverseAndBuild vTxid vMatch height (2 * pos + 1) left
        else return left
      else storeHash marked (height + 1) pos vTxid

-- CPartialMerkleTree(vTxid, vMatch); none is an access out of range.
def ofTxids (vTxid : List Uint256) (vMatch : List Bool) : Option CPartialMerkleTree := do
  let empty : CPartialMerkleTree := ⟨vTxid.length, [], [], false⟩
  let nHeight ← empty.heightFrom (vTxid.length + 1) 0
  traverseAndBuild vTxid vMatch nHeight 0 empty

structure Extraction where
  nBitsUsed : Nat
  nHashUsed : Nat
  vMatch : List Uint256
  fBad : Bool

-- What is done with the next bit; without one the tree is bad.
def takeBit (used : Extraction) (go : Bool → Extraction → Option (Uint256 × Extraction)) :
    Option (Uint256 × Extraction) :=
  if tree.vBits.length ≤ used.nBitsUsed then some (0, { used with fBad := true })
  else
    match tree.vBits[used.nBitsUsed]? with
    | none => none
    | some fParentOfMatch => go fParentOfMatch { used with nBitsUsed := used.nBitsUsed + 1 }

def takeHash (fMatched : Bool) (used : Extraction) : Option (Uint256 × Extraction) :=
  if tree.vHash.length ≤ used.nHashUsed then some (0, { used with fBad := true })
  else
    match tree.vHash[used.nHashUsed]? with
    | none => none
    | some hash =>
        some (hash, { used with
          nHashUsed := used.nHashUsed + 1
          vMatch := if fMatched then used.vMatch ++ [hash] else used.vMatch })

def traverseAndExtract : Nat → Nat → Extraction → Option (Uint256 × Extraction)
  | 0, _, used => tree.takeBit used tree.takeHash
  | height + 1, pos, used =>
      tree.takeBit used fun fParentOfMatch used =>
        if fParentOfMatch then
          match traverseAndExtract height (2 * pos) used with
          | none => none
          | some (left, used) =>
              if 2 * pos + 1 < tree.calcTreeWidth height then
                match traverseAndExtract height (2 * pos + 1) used with
                | none => none
                | some (right, used) => some (MerkleHasher.hashPair left right, used)
              else some (MerkleHasher.hashPair left left, used)
        else tree.takeHash false used

/-- The root, vMatch and the tree with its fBad; none is an access out of range. -/
def extractMatches : Option (Uint256 × List Uint256 × CPartialMerkleTree) :=
  if tree.nTransactions = 0 then some (0, [], tree)
  else if MAX_BLOCK_SIZE_CURRENT / 60 < tree.nTransactions then some (0, [], tree)
  else if tree.nTransactions < tree.vHash.length then some (0, [], tree)
  else if tree.vBits.length < tree.vHash.length then some (0, [], tree)
  else
    match tree.heightFrom (tree.nTransactions + 1) 0 with
    | none => none
    | some nHeight =>
        match tree.traverseAndExtract nHeight 0 ⟨0, 0, [], tree.fBad⟩ with
        | none => none
        | some (hashMerkleRoot, used) =>
            let root :=
              if used.fBad then 0
              -- All bits are used up but for the padding of the last byte.
              else if (used.nBitsUsed + 7) / 8 ≠ (tree.vBits.length + 7) / 8 then 0
              else if used.nHashUsed ≠ tree.vHash.length then 0
              else hashMerkleRoot
            some (root, used.vMatch, { tree with fBad := used.fBad })

end hashing

section widths

theorem calcTreeWidth_eq (height : Nat) :
    tree.calcTreeWidth height = Merkle.width tree.nTransactions height := by
  rw [calcTreeWidth, Merkle.width, Nat.shiftRight_eq_div_pow, Nat.shiftLeft_eq, Nat.one_mul]

theorem heightFrom_eq (fuel nHeight : Nat) (reached : nHeight ≤ Nat.clog 2 tree.nTransactions)
    (enough : Nat.clog 2 tree.nTransactions < nHeight + fuel) :
    tree.heightFrom fuel nHeight = some (Nat.clog 2 tree.nTransactions) := by
  induction fuel generalizing nHeight with
  | zero => omega
  | succ fuel ih =>
      have top := Merkle.width_le_one tree.nTransactions nHeight
      rw [heightFrom, calcTreeWidth_eq]
      split
      next wide => exact ih (nHeight + 1) (by omega) (by omega)
      next => exact congrArg some (by omega)

theorem heightFrom_clog :
    tree.heightFrom (tree.nTransactions + 1) 0 = some (Nat.clog 2 tree.nTransactions) := by
  have low : Nat.clog 2 tree.nTransactions ≤ tree.nTransactions :=
    Nat.clog_le_of_le_pow (Nat.le_of_lt Nat.lt_two_pow_self)
  exact tree.heightFrom_eq _ 0 (Nat.zero_le _) (by omega)

theorem mapM_range' (marks : List Bool) (first count : Nat)
    (inside : first + count ≤ marks.length) :
    (List.range' first count).mapM (fun p => marks[p]?) =
      some ((marks.drop first).take count) := by
  induction count generalizing first with
  | zero => rfl
  | succ count ih =>
      have here : first < marks.length := by omega
      rw [List.range'_succ, List.mapM_cons, List.getElem?_eq_getElem here, ih (first + 1) (by omega),
        List.drop_eq_getElem_cons here]
      rfl

theorem parentOfMatch_eq (height pos : Nat) (vMatch : List Bool)
    (same : tree.nTransactions = vMatch.length)
    (inside : pos < Merkle.width tree.nTransactions height) :
    tree.parentOfMatch height pos vMatch = some ((Merkle.below vMatch height pos).any id) := by
  rw [Merkle.lt_width_iff] at inside
  have next : (pos + 1) * 2 ^ height = pos * 2 ^ height + 2 ^ height := Nat.succ_mul ..
  rw [parentOfMatch, Nat.shiftLeft_eq, Nat.shiftLeft_eq, mapM_range' _ _ _ (by omega), next,
    Merkle.below, Option.map_some]
  congr 2
  rw [List.take_eq_take_iff, List.length_drop]
  generalize pos * 2 ^ height = first at inside
  generalize 2 ^ height = count
  omega

end widths

section spec

variable [MerkleHasher]

theorem calcHash_eq (vTxid : List Uint256) (same : tree.nTransactions = vTxid.length)
    (height pos : Nat) :
    tree.calcHash vTxid height pos = (Merkle.level MerkleHasher.hashPair height vTxid)[pos]? := by
  induction height generalizing pos with
  | zero => rfl
  | succ height ih =>
      rw [calcHash, ih, ih, Merkle.level_succ_getElem?, calcTreeWidth_eq, same,
        ← Merkle.level_length MerkleHasher.hashPair]
      cases here : (Merkle.level MerkleHasher.hashPair height vTxid)[2 * pos]? with
      | none => rfl
      | some left =>
          split
          next inside =>
            rw [List.getElem?_eq_getElem inside]
            rfl
          next last =>
            rw [List.getElem?_eq_none (Nat.le_of_not_lt last)]
            rfl

def extend (bits : List Bool) (nodes : List Uint256) : CPartialMerkleTree :=
  { tree with vBits := tree.vBits ++ bits, vHash := tree.vHash ++ nodes }

omit [MerkleHasher] in
theorem extend_extend (bits more : List Bool) (nodes others : List Uint256) :
    (tree.extend bits nodes).extend more others = tree.extend (bits ++ more) (nodes ++ others) := by
  simp only [extend, List.append_assoc]

omit [MerkleHasher] in
theorem extend_mark (mark : Bool) :
    { tree with vBits := tree.vBits ++ [mark] } = tree.extend [mark] [] := by
  simp only [extend, List.append_nil]

theorem storeHash_eq (vTxid : List Uint256) (same : tree.nTransactions = vTxid.length)
    (height pos : Nat) (node : Uint256)
    (genuine : (Merkle.level MerkleHasher.hashPair height vTxid)[pos]? = some node) :
    tree.storeHash height pos vTxid = some (tree.extend [] [node]) := by
  rw [storeHash, calcHash_eq tree vTxid same, genuine, extend, List.append_nil]
  rfl

theorem traverseAndBuild_eq (vTxid : List Uint256) (vMatch : List Bool)
    (same : vTxid.length = vMatch.length) (height pos : Nat)
    (inside : pos < Merkle.width vTxid.length height) (count : tree.nTransactions = vTxid.length) :
    traverseAndBuild vTxid vMatch height pos tree =
      some (tree.extend (Merkle.prune MerkleHasher.hashPair vTxid vMatch height pos inside).bits
        (Merkle.prune MerkleHasher.hashPair vTxid vMatch height pos inside).nodes) := by
  have grown (tree : CPartialMerkleTree) (count : tree.nTransactions = vTxid.length)
      (bits : List Bool) (nodes : List Uint256) :
      (tree.extend bits nodes).nTransactions = vTxid.length := count
  induction height generalizing pos tree with
  | zero =>
      have flag := tree.parentOfMatch_eq 0 pos vMatch (count.trans same) (count ▸ inside)
      rw [traverseAndBuild, flag, Option.bind_eq_bind, Option.bind_some, extend_mark,
        storeHash_eq _ vTxid (grown tree count _ _) 0 pos _
          (List.getElem?_eq_getElem (Merkle.width_zero vTxid.length ▸ inside)), extend_extend]
      rfl
  | succ height ih =>
      have flag := tree.parentOfMatch_eq (height + 1) pos vMatch (count.trans same) (count ▸ inside)
      have left_inside := Merkle.two_mul_lt_width inside
      rw [traverseAndBuild, flag, Option.bind_eq_bind, Option.bind_some, extend_mark, Merkle.prune]
      cases wanted : (Merkle.below vMatch (height + 1) pos).any id with
      | true =>
          have left := ih (tree.extend [true] []) (2 * pos) left_inside (grown tree count _ _)
          rw [if_pos rfl, if_pos rfl, left, Option.bind_eq_bind, Option.bind_some, extend_extend,
            calcTreeWidth_eq, grown tree count]
          split
          next two =>
            rw [ih _ (2 * pos + 1) two (grown tree count _ _), extend_extend]
            rfl
          next last => rfl
      | false =>
          have stored := storeHash_eq (tree.extend [false] []) vTxid (grown tree count _ _)
            (height + 1) pos _
            (List.getElem?_eq_getElem (by rw [Merkle.level_length]; exact inside))
          rw [if_neg Bool.false_ne_true, if_neg Bool.false_ne_true, stored, extend_extend]
          rfl

omit [MerkleHasher] in
theorem drop_cons {α : Type} (xs rest : List α) (x : α) (k : Nat) (found : xs.drop k = x :: rest) :
    k < xs.length ∧ xs[k]? = some x ∧ xs.drop (k + 1) = rest := by
  have inside : k < xs.length := by
    by_contra outside
    rw [List.drop_eq_nil_of_le (Nat.le_of_not_lt outside)] at found
    cases found
  rw [List.drop_eq_getElem_cons inside] at found
  obtain ⟨rfl, rfl⟩ := List.cons.inj found
  exact ⟨inside, List.getElem?_eq_getElem inside, rfl⟩

def Extraction.after (used : Extraction) {leaves height pos : Nat}
    (part : Merkle.PartialTree Uint256 leaves height pos) : Extraction :=
  { used with
    nBitsUsed := used.nBitsUsed + part.bits.length
    nHashUsed := used.nHashUsed + part.nodes.length
    vMatch := used.vMatch ++ part.matched }

def Extraction.marked (used : Extraction) : Extraction :=
  { used with nBitsUsed := used.nBitsUsed + 1 }

omit [MerkleHasher] in
theorem Extraction.after_single (used : Extraction) {leaves height pos : Nat}
    (last : ¬ 2 * pos + 1 < Merkle.width leaves height)
    (child : Merkle.PartialTree Uint256 leaves height (2 * pos)) :
    used.marked.after child = used.after (.single last child) := by
  simp only [after, marked, Merkle.PartialTree.bits, Merkle.PartialTree.nodes,
    Merkle.PartialTree.matched, List.length_cons, Nat.add_assoc, Nat.add_comm 1]

omit [MerkleHasher] in
theorem Extraction.after_fork (used : Extraction) {leaves height pos : Nat}
    (two : 2 * pos + 1 < Merkle.width leaves height)
    (left : Merkle.PartialTree Uint256 leaves height (2 * pos))
    (right : Merkle.PartialTree Uint256 leaves height (2 * pos + 1)) :
    (used.marked.after left).after right = used.after (.fork two left right) := by
  simp only [after, marked, Merkle.PartialTree.bits, Merkle.PartialTree.nodes,
    Merkle.PartialTree.matched, List.length_cons, List.length_append, List.append_assoc,
    Nat.add_assoc, Nat.add_comm 1]

omit [MerkleHasher] in
theorem takeHash_total (fMatched : Bool) (used : Extraction) :
    ∃ hash later, tree.takeHash fMatched used = some (hash, later) ∧
      (used.fBad = true → later.fBad = true) := by
  rw [takeHash]
  split
  next => exact ⟨_, _, rfl, fun _ => rfl⟩
  next inside =>
    rw [List.getElem?_eq_getElem (Nat.lt_of_not_le inside)]
    exact ⟨_, _, rfl, id⟩

omit [MerkleHasher] in
theorem takeBit_total (used : Extraction) (go : Bool → Extraction → Option (Uint256 × Extraction))
    (total : ∀ mark, ∃ hash later, go mark used.marked = some (hash, later) ∧
      (used.fBad = true → later.fBad = true)) :
    ∃ hash later, tree.takeBit used go = some (hash, later) ∧
      (used.fBad = true → later.fBad = true) := by
  rw [takeBit]
  split
  next => exact ⟨_, _, rfl, fun _ => rfl⟩
  next inside =>
    rw [List.getElem?_eq_getElem (Nat.lt_of_not_le inside)]
    exact total _

theorem traverseAndExtract_total (height pos : Nat) (used : Extraction) :
    ∃ hash later, tree.traverseAndExtract height pos used = some (hash, later) ∧
      (used.fBad = true → later.fBad = true) := by
  induction height generalizing pos used with
  | zero => exact tree.takeBit_total used _ fun mark => tree.takeHash_total mark used.marked
  | succ height ih =>
      apply tree.takeBit_total
      intro mark
      cases mark with
      | false => exact tree.takeHash_total false used.marked
      | true =>
          obtain ⟨left, middle, read_left, bad_left⟩ := ih (2 * pos) used.marked
          obtain ⟨right, later, read_right, bad_right⟩ := ih (2 * pos + 1) middle
          simp only [if_true, read_left, read_right]
          split
          next => exact ⟨_, later, rfl, fun bad => bad_right (bad_left bad)⟩
          next => exact ⟨_, middle, rfl, bad_left⟩

omit [MerkleHasher] in
theorem takeBit_end (used : Extraction) (go : Bool → Extraction → Option (Uint256 × Extraction))
    (found : tree.vBits.drop used.nBitsUsed = []) :
    tree.takeBit used go = some (0, { used with fBad := true }) := by
  rw [takeBit, if_pos (List.drop_eq_nil_iff.mp found)]

omit [MerkleHasher] in
theorem takeBit_next (used : Extraction) (go : Bool → Extraction → Option (Uint256 × Extraction))
    (mark : Bool) (bits : List Bool) (found : tree.vBits.drop used.nBitsUsed = mark :: bits) :
    tree.takeBit used go = go mark used.marked ∧
      tree.vBits.drop used.marked.nBitsUsed = bits := by
  obtain ⟨inside, here, rest⟩ := drop_cons _ _ _ _ found
  refine ⟨?_, rest⟩
  rw [takeBit, if_neg (Nat.not_le_of_lt inside), here]
  rfl

omit [MerkleHasher] in
theorem takeHash_end (fMatched : Bool) (used : Extraction)
    (found : tree.vHash.drop used.nHashUsed = []) :
    tree.takeHash fMatched used = some (0, { used with fBad := true }) := by
  rw [takeHash, if_pos (List.drop_eq_nil_iff.mp found)]

omit [MerkleHasher] in
theorem takeHash_next (fMatched : Bool) (used : Extraction) (node : Uint256)
    (nodes : List Uint256) (found : tree.vHash.drop used.nHashUsed = node :: nodes) :
    tree.takeHash fMatched used = some (node, { used with
      nHashUsed := used.nHashUsed + 1
      vMatch := used.vMatch ++ if fMatched then [node] else [] }) ∧
      tree.vHash.drop (used.nHashUsed + 1) = nodes := by
  obtain ⟨inside, here, rest⟩ := drop_cons _ _ _ _ found
  refine ⟨?_, rest⟩
  rw [takeHash, if_neg (Nat.not_le_of_lt inside), here]
  cases fMatched with
  | true => rfl
  | false =>
      rw [if_neg Bool.false_ne_true, List.append_nil]
      rfl

theorem traverseAndExtract_parent (height pos : Nat) (used : Extraction) (bits : List Bool)
    (found : tree.vBits.drop used.nBitsUsed = true :: bits) (left : Uint256) (middle : Extraction)
    (read_left : tree.traverseAndExtract height (2 * pos) used.marked = some (left, middle)) :
    tree.traverseAndExtract (height + 1) pos used =
      if 2 * pos + 1 < Merkle.width tree.nTransactions height then
        (tree.traverseAndExtract height (2 * pos + 1) middle).map fun (right, later) =>
          (MerkleHasher.hashPair left right, later)
      else some (MerkleHasher.hashPair left left, middle) := by
  rw [traverseAndExtract, (tree.takeBit_next used _ true bits found).1]
  simp only [if_true, read_left, calcTreeWidth_eq]
  split
  next => cases tree.traverseAndExtract height (2 * pos + 1) middle <;> rfl
  next => rfl

def Extracts (height pos : Nat) (used : Extraction) :
    Option (Merkle.PartialTree Uint256 tree.nTransactions height pos × List Bool × List Uint256) →
      Prop
  | none => ∃ hash later, tree.traverseAndExtract height pos used = some (hash, later) ∧
      later.fBad = true
  | some (part, bits, nodes) =>
      tree.traverseAndExtract height pos used =
          some (part.node MerkleHasher.hashPair, used.after part) ∧
        tree.vBits.drop (used.after part).nBitsUsed = bits ∧
        tree.vHash.drop (used.after part).nHashUsed = nodes

theorem extracts_stored (height pos : Nat) (used : Extraction) (fMatched : Bool) (node : Uint256)
    (bits : List Bool) (nodes : List Uint256)
    (part : Merkle.PartialTree Uint256 tree.nTransactions height pos)
    (stored : tree.traverseAndExtract height pos used = tree.takeHash fMatched used.marked)
    (later : tree.vBits.drop used.marked.nBitsUsed = bits)
    (found : tree.vHash.drop used.nHashUsed = node :: nodes)
    (one_bit : part.bits.length = 1) (one_node : part.nodes.length = 1)
    (matched : part.matched = if fMatched then [node] else [])
    (here : part.node MerkleHasher.hashPair = node) :
    tree.Extracts height pos used (some (part, bits, nodes)) := by
  obtain ⟨taken, behind⟩ := tree.takeHash_next fMatched used.marked node nodes found
  refine ⟨?_, ?_, ?_⟩
  · rw [stored, taken, here, Extraction.after, one_bit, one_node, matched]
    rfl
  · rw [Extraction.after, one_bit]
    exact later
  · rw [Extraction.after, one_node]
    exact behind

theorem extracts_bad (height pos : Nat) (used : Extraction) (bits : List Bool)
    (found : tree.vBits.drop used.nBitsUsed = true :: bits)
    (left : tree.Extracts height (2 * pos) used.marked none) :
    tree.Extracts (height + 1) pos used none := by
  obtain ⟨hash, middle, read_left, bad⟩ := left
  obtain ⟨other, last, read_right, stays⟩ :=
    tree.traverseAndExtract_total height (2 * pos + 1) middle
  have parent := tree.traverseAndExtract_parent height pos used bits found hash middle read_left
  rw [read_right, Option.map_some] at parent
  rw [Extracts, parent]
  split
  next => exact ⟨_, last, rfl, stays bad⟩
  next => exact ⟨_, middle, rfl, bad⟩

theorem extracts_single (height pos : Nat) (used : Extraction) (bits : List Bool)
    (found : tree.vBits.drop used.nBitsUsed = true :: bits)
    (last : ¬ 2 * pos + 1 < Merkle.width tree.nTransactions height)
    (child : Merkle.PartialTree Uint256 tree.nTransactions height (2 * pos))
    (rest : List Bool × List Uint256)
    (left : tree.Extracts height (2 * pos) used.marked (some (child, rest))) :
    tree.Extracts (height + 1) pos used (some (.single last child, rest)) := by
  obtain ⟨read_left, behind⟩ := left
  have parent := tree.traverseAndExtract_parent height pos used bits found _ _ read_left
  rw [if_neg last] at parent
  rw [Extraction.after_single used last] at parent behind
  exact ⟨parent, behind⟩

theorem extracts_fork (height pos : Nat) (used : Extraction) (bits : List Bool)
    (found : tree.vBits.drop used.nBitsUsed = true :: bits)
    (two : 2 * pos + 1 < Merkle.width tree.nTransactions height)
    (left : Merkle.PartialTree Uint256 tree.nTransactions height (2 * pos))
    (right : Merkle.PartialTree Uint256 tree.nTransactions height (2 * pos + 1))
    (rest middle : List Bool × List Uint256)
    (reads_left : tree.Extracts height (2 * pos) used.marked (some (left, middle)))
    (reads_right : tree.Extracts height (2 * pos + 1) (used.marked.after left)
      (some (right, rest))) :
    tree.Extracts (height + 1) pos used (some (.fork two left right, rest)) := by
  obtain ⟨read_right, behind⟩ := reads_right
  have parent := tree.traverseAndExtract_parent height pos used bits found _ _ reads_left.1
  rw [if_pos two, read_right] at parent
  rw [Extraction.after_fork used two] at parent behind
  exact ⟨parent, behind⟩

theorem extracts_fork_bad (height pos : Nat) (used : Extraction) (bits : List Bool)
    (found : tree.vBits.drop used.nBitsUsed = true :: bits)
    (two : 2 * pos + 1 < Merkle.width tree.nTransactions height)
    (left : Merkle.PartialTree Uint256 tree.nTransactions height (2 * pos))
    (middle : List Bool × List Uint256)
    (reads_left : tree.Extracts height (2 * pos) used.marked (some (left, middle)))
    (bad_right : tree.Extracts height (2 * pos + 1) (used.marked.after left) none) :
    tree.Extracts (height + 1) pos used none := by
  obtain ⟨hash, last, read_right, bad⟩ := bad_right
  have parent := tree.traverseAndExtract_parent height pos used bits found _ _ reads_left.1
  rw [if_pos two, read_right] at parent
  exact ⟨_, last, parent, bad⟩

theorem traverseAndExtract_decode (height pos : Nat) (used : Extraction) :
    tree.Extracts height pos used (Merkle.PartialTree.decode tree.nTransactions height pos
      (tree.vBits.drop used.nBitsUsed) (tree.vHash.drop used.nHashUsed)) := by
  induction height generalizing pos used with
  | zero =>
      cases bits : tree.vBits.drop used.nBitsUsed with
      | nil => exact ⟨_, _, tree.takeBit_end used _ bits, rfl⟩
      | cons mark rest =>
          obtain ⟨stored, later⟩ := tree.takeBit_next used tree.takeHash mark rest bits
          cases nodes : tree.vHash.drop used.nHashUsed with
          | nil => exact ⟨_, _, stored.trans (tree.takeHash_end mark used.marked nodes), rfl⟩
          | cons node others =>
              exact tree.extracts_stored 0 pos used mark node rest others (.leaf mark node) stored
                later nodes rfl rfl rfl rfl
  | succ height ih =>
      cases bits : tree.vBits.drop used.nBitsUsed with
      | nil => exact ⟨_, _, tree.takeBit_end used _ bits, rfl⟩
      | cons mark rest =>
          obtain ⟨_, later⟩ := tree.takeBit_next used tree.takeHash mark rest bits
          cases mark with
          | false =>
              have stored : tree.traverseAndExtract (height + 1) pos used =
                  tree.takeHash false used.marked := (tree.takeBit_next used _ false rest bits).1
              cases nodes : tree.vHash.drop used.nHashUsed with
              | nil => exact ⟨_, _, stored.trans (tree.takeHash_end false used.marked nodes), rfl⟩
              | cons node others =>
                  exact tree.extracts_stored (height + 1) pos used false node rest others
                    (.pruned node) stored later nodes rfl rfl rfl rfl
          | true =>
              have left := ih (2 * pos) used.marked
              rw [later, show used.marked.nHashUsed = used.nHashUsed from rfl] at left
              rw [Merkle.PartialTree.decode]
              cases decoded : Merkle.PartialTree.decode tree.nTransactions height (2 * pos) rest
                  (tree.vHash.drop used.nHashUsed) with
              | none => exact tree.extracts_bad height pos used rest bits (decoded ▸ left)
              | some found =>
                  obtain ⟨part, rest_bits, rest_nodes⟩ := found
                  rw [decoded] at left
                  have right := ih (2 * pos + 1) (used.marked.after part)
                  rw [left.2.1, left.2.2] at right
                  by_cases two : 2 * pos + 1 < Merkle.width tree.nTransactions height
                  · simp only [dif_pos two]
                    cases decoded_right : Merkle.PartialTree.decode tree.nTransactions height
                        (2 * pos + 1) rest_bits rest_nodes with
                    | none =>
                        exact tree.extracts_fork_bad height pos used rest bits two part _ left
                          (decoded_right ▸ right)
                    | some found =>
                        rw [decoded_right] at right
                        exact tree.extracts_fork height pos used rest bits two part found.1 found.2
                          _ left right
                  · simp only [dif_neg two]
                    exact tree.extracts_single height pos used rest bits two part _ left

def partialTree : Option (Merkle.PartialTree Uint256 tree.nTransactions
    (Nat.clog 2 tree.nTransactions) 0 × List Bool × List Uint256) :=
  Merkle.PartialTree.decode tree.nTransactions (Nat.clog 2 tree.nTransactions) 0 tree.vBits
    tree.vHash

def hashedPairs : List (Uint256 × Uint256) :=
  match tree.partialTree with
  | none => []
  | some (part, _) => part.hashed MerkleHasher.hashPair

theorem extractMatches_part :
    ∃ root vMatch after, tree.extractMatches = some (root, vMatch, after) ∧
      (root ≠ 0 → tree.nTransactions ≠ 0 ∧ ∃ part rest, tree.partialTree = some (part, rest) ∧
        root = part.node MerkleHasher.hashPair ∧ vMatch = part.matched) := by
  have decoded := tree.traverseAndExtract_decode (Nat.clog 2 tree.nTransactions) 0
    ⟨0, 0, [], tree.fBad⟩
  simp only [List.drop_zero] at decoded
  have refused : ∃ root vMatch after, some ((0 : Uint256), ([] : List Uint256), tree) =
      some (root, vMatch, after) ∧
      (root ≠ 0 → tree.nTransactions ≠ 0 ∧ ∃ part rest, tree.partialTree = some (part, rest) ∧
        root = part.node MerkleHasher.hashPair ∧ vMatch = part.matched) :=
    ⟨_, _, _, rfl, fun nonzero => absurd rfl nonzero⟩
  rw [extractMatches]
  split
  next => exact refused
  next some_tx =>
    split
    next => exact refused
    next =>
      split
      next => exact refused
      next =>
        split
        next => exact refused
        next =>
          simp only [heightFrom_clog]
          cases found : tree.partialTree with
          | none =>
              rw [partialTree] at found
              rw [found] at decoded
              obtain ⟨hash, later, read, bad⟩ := decoded
              rw [read]
              refine ⟨_, _, _, rfl, fun nonzero => absurd ?_ nonzero⟩
              rw [if_pos bad]
          | some found_part =>
              obtain ⟨part, rest⟩ := found_part
              rw [partialTree] at found
              rw [found] at decoded
              obtain ⟨read, _⟩ := decoded
              rw [read]
              refine ⟨_, _, _, rfl, fun nonzero => ⟨some_tx, part, rest, rfl, ?_, ?_⟩⟩
              · split at nonzero
                next => exact absurd rfl nonzero
                next good =>
                  rw [if_neg good]
                  split at nonzero
                  next => exact absurd rfl nonzero
                  next bits =>
                    rw [if_neg bits]
                    split at nonzero
                    next => exact absurd rfl nonzero
                    next nodes => rw [if_neg nodes]
              · exact List.nil_append _

theorem extractMatches_written
    (part : Merkle.PartialTree Uint256 tree.nTransactions (Nat.clog 2 tree.nTransactions) 0)
    (padding : List Bool) (some_tx : tree.nTransactions ≠ 0)
    (few : tree.nTransactions ≤ MAX_BLOCK_SIZE_CURRENT / 60)
    (bits : tree.vBits = part.bits ++ padding)
    (last : (part.bits.length + 7) / 8 = (tree.vBits.length + 7) / 8)
    (nodes : tree.vHash = part.nodes) (good : tree.fBad = false) :
    tree.extractMatches = some (part.node MerkleHasher.hashPair, part.matched, tree) := by
  have top : 0 < Merkle.width tree.nTransactions (Nat.clog 2 tree.nTransactions) :=
    Merkle.width_pos _ _ (Nat.pos_of_ne_zero some_tx)
  have least := part.nodes_length_le top
  have most := part.nodes_length_le_bits
  have total : tree.vBits.length = part.bits.length + padding.length := by
    rw [bits, List.length_append]
  have decoded := tree.traverseAndExtract_decode (Nat.clog 2 tree.nTransactions) 0
    ⟨0, 0, [], tree.fBad⟩
  have described := part.decode_write padding []
  rw [List.append_nil, ← bits, ← nodes] at described
  simp only [List.drop_zero, described] at decoded
  obtain ⟨read, _⟩ := decoded
  rw [extractMatches, if_neg some_tx, if_neg (Nat.not_lt_of_le few), if_neg (by rw [nodes]; omega),
    if_neg (by rw [nodes]; omega)]
  have fBad : (Extraction.after ⟨0, 0, [], tree.fBad⟩ part).fBad = false := good
  have nBitsUsed : (Extraction.after ⟨0, 0, [], tree.fBad⟩ part).nBitsUsed = part.bits.length :=
    Nat.zero_add _
  have nHashUsed : (Extraction.after ⟨0, 0, [], tree.fBad⟩ part).nHashUsed = tree.vHash.length := by
    rw [nodes]
    exact Nat.zero_add _
  simp only [heightFrom_clog, read]
  rw [fBad, nBitsUsed, nHashUsed, last, if_neg Bool.false_ne_true, if_neg (not_not_intro rfl),
    if_neg (not_not_intro rfl), ← good]
  rfl

omit [MerkleHasher] in
theorem format_back :
    format.back tree = ⟨tree.nTransactions, (Bitmap.pack tree.vBits).flatMap Bitmap.bits,
      tree.vHash, false⟩ := by
  have hashes : (Format.vector Format.uint256).back tree.vHash = tree.vHash := by
    refine (List.map_congr_left fun hash _ => ?_).trans (List.map_id _)
    exact Format.uint256_back hash
  simp only [format, Codec.via, Codec.pair, Format.bytes_back, hashes]
  rfl

omit [MerkleHasher] in
theorem format_read (count : tree.nTransactions ≤ MAX_BLOCK_SIZE_CURRENT / 60)
    (nodes : tree.vHash.length ≤ tree.nTransactions) (bits : tree.vBits.length ≤ MAX_SIZE)
    (rest : List UInt8) :
    format.read (format.write tree ++ rest) =
      .ok (⟨tree.nTransactions, (Bitmap.pack tree.vBits).flatMap Bitmap.bits, tree.vHash, false⟩,
        rest) := by
  have few : MAX_BLOCK_SIZE_CURRENT / 60 = 33333 := by decide
  have most : MAX_SIZE = 33554432 := by decide
  have length := Bitmap.pack_length tree.vBits
  have typed : format.Typed tree := by
    refine ⟨?_, ⟨?_, fun hash _ => Format.uint256_typed hash⟩, ?_⟩
    · show tree.nTransactions < 256 ^ 4
      omega
    · show tree.vHash.length < 256 ^ 8
      omega
    · rw [Format.bytes_typed]
      show (Bitmap.pack tree.vBits).length < 256 ^ 8
      omega
  have fits : format.Fits tree := by
    refine ⟨trivial, ⟨?_, fun hash _ => trivial⟩, ?_⟩
    · show tree.vHash.length ≤ MAX_SIZE
      omega
    · rw [Format.bytes_fits]
      show (Bitmap.pack tree.vBits).length ≤ MAX_SIZE
      omega
  rw [format.read_fits tree typed fits rest, format_back]

/-- A partial tree that is built, written and read back gives the root and the matched ids. -/
theorem extractMatches_ofTxids (vTxid : List Uint256) (vMatch : List Bool)
    (some_tx : vTxid ≠ []) (few : vTxid.length ≤ MAX_BLOCK_SIZE_CURRENT / 60)
    (same : vTxid.length = vMatch.length) (rest : List UInt8) :
    ∃ tree back, ofTxids vTxid vMatch = some tree ∧
      format.read (format.write tree ++ rest) = .ok (back, rest) ∧
      back.extractMatches = some ((merkleRoot vTxid.length vTxid false).1,
        ((vTxid.zip vMatch).filter Prod.snd).map Prod.fst, back) := by
  have top := Merkle.width_pos vTxid.length (Merkle.height vTxid) (List.length_pos_iff.mpr some_tx)
  let part := Merkle.prune MerkleHasher.hashPair vTxid vMatch (Merkle.height vTxid) 0 top
  let tree : CPartialMerkleTree := ⟨vTxid.length, part.bits, part.nodes, false⟩
  have built : ofTxids vTxid vMatch = some tree := by
    have start := heightFrom_clog ⟨vTxid.length, [], [], false⟩
    rw [ofTxids, start, Option.bind_eq_bind, Option.bind_some]
    exact traverseAndBuild_eq _ vTxid vMatch same (Merkle.height vTxid) 0 top rfl
  have nodes : part.nodes.length ≤ vTxid.length := by
    have least := part.nodes_length_le top
    omega
  have bits : part.bits.length ≤ MAX_SIZE := by
    have low : Merkle.height vTxid ≤ 16 := by
      rw [Merkle.height, Nat.clog_le_iff_le_pow Nat.one_lt_two]
      exact few.trans (by decide)
    have power : 2 ^ (Merkle.height vTxid + 1) ≤ 2 ^ 17 :=
      Nat.pow_le_pow_right Nat.two_pos (by omega)
    have below := part.bits_length_lt
    have most : 2 ^ 17 ≤ MAX_SIZE := by decide
    omega
  have read := tree.format_read few nodes bits rest
  refine ⟨tree, _, built, read, ?_⟩
  obtain ⟨count, total, packed⟩ := Bitmap.flatMap_pack part.bits
  have last : (part.bits.length + 7) / 8 =
      (((Bitmap.pack part.bits).flatMap Bitmap.bits).length + 7) / 8 := by
    rw [packed, List.length_append, List.length_replicate]
    omega
  have written := extractMatches_written
    ⟨vTxid.length, (Bitmap.pack part.bits).flatMap Bitmap.bits, part.nodes, false⟩ part
    (List.replicate count false) (by simpa using some_tx) few packed last rfl rfl
  have root : part.node MerkleHasher.hashPair = (merkleRoot vTxid.length vTxid false).1 := by
    have top_node := Merkle.prune_node MerkleHasher.hashPair vTxid vMatch (Merkle.height vTxid) 0 top
    rw [← List.head?_eq_getElem?] at top_node
    have same_root := (merkleRoot_eq vTxid.length vTxid false some_tx (height_le_length vTxid)).1
    exact Option.some.inj (top_node.symm.trans same_root.symm)
  have matched : part.matched = ((vTxid.zip vMatch).filter Prod.snd).map Prod.fst := by
    have high : vTxid.length ≤ 2 ^ Merkle.height vTxid := Nat.le_pow_clog Nat.one_lt_two _
    have selected := Merkle.prune_matched MerkleHasher.hashPair vTxid vMatch same
      (Merkle.height vTxid) 0 top
    rw [Merkle.below_top vTxid _ high, Merkle.below_top vMatch _ (same ▸ high)] at selected
    exact selected
  exact written.trans (congrArg₂ (fun root ids => some (root, ids, _)) root matched)

end spec

end CPartialMerkleTree

theorem extractMatches_ofTxids_three :
    ∃ tree back, @CPartialMerkleTree.ofTxids linearHasher [1, 2, 3] [false, false, true] =
        some tree ∧
      CPartialMerkleTree.format.read (CPartialMerkleTree.format.write tree ++ []) =
        .ok (back, []) ∧
      @CPartialMerkleTree.extractMatches back linearHasher =
        some ((@merkleRoot linearHasher 3 [1, 2, 3] false).1, [3], back) :=
  @CPartialMerkleTree.extractMatches_ofTxids linearHasher [1, 2, 3] [false, false, true]
    (by decide) (by decide) rfl []

namespace CPartialMerkleTree

section soundness

variable [MerkleHasher] [TxHasher] (tree : CPartialMerkleTree)

/-- The matches of a tree with the root of a block are ids of the block's transactions, and the
extraction reads nothing out of range. -/
theorem extractMatches_sound (block : CBlock) (data rest : List UInt8)
    (_read : format.read data = .ok (tree, rest)) (count : tree.nTransactions = block.vtx.length)
    (free : Merkle.NoCollision MerkleHasher.hashPair tree.hashedPairs
      (Merkle.hashedPairs MerkleHasher.hashPair block.txids)) :
    ∃ root vMatch after, tree.extractMatches = some (root, vMatch, after) ∧
      (root = block.buildMerkleTree.1 → root ≠ 0 → ∀ hash ∈ vMatch, hash ∈ block.txids) := by
  have length : block.vtx.length = block.txids.length := (List.length_map _).symm
  obtain ⟨nTransactions, vBits, vHash, fBad⟩ := tree
  obtain rfl : nTransactions = block.txids.length := count.trans length
  obtain ⟨root, vMatch, after, extracted, genuine⟩ := extractMatches_part
    ⟨block.txids.length, vBits, vHash, fBad⟩
  refine ⟨root, vMatch, after, extracted, ?_⟩
  intro same nonzero
  obtain ⟨some_id, part, bits, found, node, rfl⟩ := genuine nonzero
  rw [hashedPairs, found] at free
  have some_tx : block.vtx ≠ [] := by
    rw [← List.length_pos_iff, length]
    exact Nat.pos_of_ne_zero some_id
  have top := (block.buildMerkleTree_eq some_tx).1
  rw [← same, node, Merkle.root, List.head?_eq_getElem?] at top
  exact part.matched_subset MerkleHasher.hashPair block.txids (Nat.le_refl _) top.symm free

end soundness

end CPartialMerkleTree

def sentTree : CPartialMerkleTree := ⟨3, [true, false, true, true], [1013, 3], false⟩
def readTree : CPartialMerkleTree :=
  ⟨3, [true, false, true, true, false, false, false, false], [1013, 3], false⟩

theorem readTree_free :
    Merkle.NoCollision linearHasher.hashPair (@CPartialMerkleTree.hashedPairs readTree linearHasher)
      (Merkle.hashedPairs linearHasher.hashPair (@CBlock.txids lockTimeHasher threeTxBlock)) := by
  have read : @CPartialMerkleTree.hashedPairs readTree linearHasher = [(1013, 1024), (3, 3)] := by
    decide +kernel
  rw [read, threeTxBlock_txids, linearHasher_hashed]
  intro p inside q beside same
  simp only [List.mem_cons, List.not_mem_nil, or_false] at inside beside
  rcases inside with rfl | rfl <;> rcases beside with rfl | rfl | rfl <;>
    first | rfl | exact absurd same (by decide)

theorem extractMatches_sound_three :
    ∃ root vMatch after,
      @CPartialMerkleTree.extractMatches readTree linearHasher = some (root, vMatch, after) ∧
      (root = (@CBlock.buildMerkleTree lockTimeHasher linearHasher threeTxBlock).1 → root ≠ 0 →
        ∀ hash ∈ vMatch, hash ∈ @CBlock.txids lockTimeHasher threeTxBlock) :=
  @CPartialMerkleTree.extractMatches_sound linearHasher lockTimeHasher readTree threeTxBlock
    (CPartialMerkleTree.format.write sentTree ++ []) []
    (sentTree.format_read (by decide) (by decide) (by decide) []) rfl readTree_free

end CryptoYen
