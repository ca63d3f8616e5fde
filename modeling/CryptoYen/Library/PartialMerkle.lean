import CryptoYen.Library.Merkle

set_option autoImplicit false

/-! What is kept of a Merkle tree to show that some of its leaves belong to it, and how it is
written: a mark for each visited node and the hashes of those below which nothing is visited. -/

namespace Merkle

universe u v

variable {H : Type u}

theorem two_mul_lt_width {leaves h pos : Nat} (inside : pos < width leaves (h + 1)) :
    2 * pos < width leaves h := by
  rw [width_succ] at inside
  omega

theorem start_left (h pos : Nat) : pos * 2 ^ (h + 1) = 2 * pos * 2 ^ h := by
  rw [Nat.pow_succ, ← Nat.mul_assoc, Nat.mul_comm, Nat.mul_assoc]

theorem start_right (h pos : Nat) : (2 * pos + 1) * 2 ^ h = pos * 2 ^ (h + 1) + 2 ^ h := by
  rw [Nat.succ_mul, start_left]

inductive PartialTree (H : Type u) (leaves : Nat) : Nat → Nat → Type u where
  | leaf {pos : Nat} (matched : Bool) (node : H) : PartialTree H leaves 0 pos
  | pruned {h pos : Nat} (node : H) : PartialTree H leaves (h + 1) pos
  | single {h pos : Nat} (last : ¬ 2 * pos + 1 < width leaves h)
      (child : PartialTree H leaves h (2 * pos)) : PartialTree H leaves (h + 1) pos
  | fork {h pos : Nat} (inside : 2 * pos + 1 < width leaves h)
      (left : PartialTree H leaves h (2 * pos))
      (right : PartialTree H leaves h (2 * pos + 1)) : PartialTree H leaves (h + 1) pos

namespace PartialTree

variable {leaves : Nat}

def node (hash : H → H → H) {h pos : Nat} : PartialTree H leaves h pos → H
  | .leaf _ node => node
  | .pruned node => node
  | .single _ child => hash (child.node hash) (child.node hash)
  | .fork _ left right => hash (left.node hash) (right.node hash)

def hashed (hash : H → H → H) {h pos : Nat} : PartialTree H leaves h pos → List (H × H)
  | .leaf _ _ => []
  | .pruned _ => []
  | .single _ child => (child.node hash, child.node hash) :: child.hashed hash
  | .fork _ left right =>
      (left.node hash, right.node hash) :: (left.hashed hash ++ right.hashed hash)

def matched {h pos : Nat} : PartialTree H leaves h pos → List H
  | .leaf matched node => if matched then [node] else []
  | .pruned _ => []
  | .single _ child => child.matched
  | .fork _ left right => left.matched ++ right.matched

def bits {h pos : Nat} : PartialTree H leaves h pos → List Bool
  | .leaf matched _ => [matched]
  | .pruned _ => [false]
  | .single _ child => true :: child.bits
  | .fork _ left right => true :: (left.bits ++ right.bits)

def nodes {h pos : Nat} : PartialTree H leaves h pos → List H
  | .leaf _ node => [node]
  | .pruned node => [node]
  | .single _ child => child.nodes
  | .fork _ left right => left.nodes ++ right.nodes

def decode (leaves : Nat) : (h pos : Nat) → List Bool → List H →
    Option (PartialTree H leaves h pos × List Bool × List H)
  | 0, _, matched :: bits, node :: nodes => some (.leaf matched node, bits, nodes)
  | _ + 1, _, false :: bits, node :: nodes => some (.pruned node, bits, nodes)
  | h + 1, pos, true :: bits, nodes =>
      match decode leaves h (2 * pos) bits nodes with
      | none => none
      | some (left, bits, nodes) =>
          if inside : 2 * pos + 1 < width leaves h then
            match decode leaves h (2 * pos + 1) bits nodes with
            | none => none
            | some (right, bits, nodes) => some (.fork inside left right, bits, nodes)
          else some (.single inside left, bits, nodes)
  | _, _, _, _ => none

theorem decode_write {h pos : Nat} (tree : PartialTree H leaves h pos) (bits : List Bool)
    (nodes : List H) :
    decode leaves h pos (tree.bits ++ bits) (tree.nodes ++ nodes) = some (tree, bits, nodes) := by
  induction tree generalizing bits nodes with
  | leaf matched node => rfl
  | pruned node => rfl
  | single last child ih =>
      simp only [PartialTree.bits, PartialTree.nodes, List.cons_append, decode, ih]
      rw [dif_neg last]
  | fork inside left right ih_left ih_right =>
      simp only [PartialTree.bits, PartialTree.nodes, List.cons_append, List.append_assoc, decode,
        ih_left]
      rw [dif_pos inside, ih_right]

theorem bits_length_lt {h pos : Nat} (tree : PartialTree H leaves h pos) :
    tree.bits.length < 2 ^ (h + 1) := by
  induction tree with
  | leaf matched node => simp [bits]
  | @pruned h pos node =>
      have twice : 2 ^ (h + 1 + 1) = 2 ^ h * 2 * 2 := by rw [Nat.pow_succ, Nat.pow_succ]
      have positive : 0 < 2 ^ h := Nat.two_pow_pos h
      simp only [bits, List.length_singleton]
      omega
  | single last child ih =>
      rw [Nat.pow_succ]
      simp only [bits, List.length_cons]
      omega
  | fork inside left right ih_left ih_right =>
      rw [Nat.pow_succ]
      simp only [bits, List.length_cons, List.length_append]
      omega

theorem nodes_length_le_bits {h pos : Nat} (tree : PartialTree H leaves h pos) :
    tree.nodes.length ≤ tree.bits.length := by
  induction tree with
  | leaf matched node => exact Nat.le_refl 1
  | pruned node => exact Nat.le_refl 1
  | single last child ih => exact Nat.le_succ_of_le ih
  | fork inside left right ih_left ih_right =>
      simp only [nodes, bits, List.length_cons, List.length_append]
      omega

theorem nodes_length_le {h pos : Nat} (tree : PartialTree H leaves h pos)
    (inside : pos < width leaves h) :
    tree.nodes.length ≤ min (2 ^ h) (leaves - pos * 2 ^ h) := by
  induction tree with
  | @leaf pos matched node =>
      have some_leaf := (lt_width_iff leaves 0 pos).mp inside
      simp only [nodes, List.length_singleton]
      omega
  | @pruned h pos node =>
      have some_leaf := (lt_width_iff leaves (h + 1) pos).mp inside
      have positive : 0 < 2 ^ (h + 1) := Nat.two_pow_pos (h + 1)
      simp only [nodes, List.length_singleton]
      omega
  | @single h pos last child ih =>
      have twice : 2 ^ (h + 1) = 2 ^ h * 2 := Nat.pow_succ ..
      have fewer := ih (two_mul_lt_width inside)
      rw [start_left, twice]
      simp only [nodes]
      omega
  | @fork h pos two left right ih_left ih_right =>
      have twice : 2 ^ (h + 1) = 2 ^ h * 2 := Nat.pow_succ ..
      have fewer_left := ih_left (two_mul_lt_width inside)
      have fewer_right := ih_right two
      rw [start_right] at fewer_right
      rw [← start_left] at fewer_left
      simp only [nodes, List.length_append]
      omega

end PartialTree

section select

variable {α : Type u} {β : Type v}

def below (xs : List α) (h pos : Nat) : List α := (xs.drop (pos * 2 ^ h)).take (2 ^ h)

theorem below_succ (xs : List α) (h pos : Nat) :
    below xs (h + 1) pos = below xs h (2 * pos) ++ below xs h (2 * pos + 1) := by
  have twice : 2 ^ (h + 1) = 2 ^ h + 2 ^ h := by rw [Nat.pow_succ, Nat.mul_two]
  rw [below, below, below, start_right, ← List.drop_drop, ← start_left, twice, List.take_add]

theorem below_last (xs : List α) (h pos : Nat) (last : ¬ pos < width xs.length h) :
    below xs h pos = [] := by
  rw [lt_width_iff, Nat.not_lt] at last
  rw [below, List.drop_eq_nil_of_le last, List.take_nil]

theorem below_zero (xs : List α) (pos : Nat) (inside : pos < xs.length) :
    below xs 0 pos = [xs[pos]] := by
  rw [below, Nat.pow_zero, Nat.mul_one, List.drop_eq_getElem_cons inside, List.take_succ_cons,
    List.take_zero]

theorem below_top (xs : List α) (h : Nat) (top : xs.length ≤ 2 ^ h) : below xs h 0 = xs := by
  rw [below, Nat.zero_mul, List.drop_zero]
  exact List.take_of_length_le top

theorem below_length_congr (xs : List α) (ys : List β) (same : xs.length = ys.length)
    (h pos : Nat) : (below xs h pos).length = (below ys h pos).length := by
  simp only [below, List.length_take, List.length_drop, same]

def select (xs : List α) (wanted : List Bool) : List α :=
  ((xs.zip wanted).filter Prod.snd).map Prod.fst

theorem select_append (xs ys : List α) (ws vs : List Bool) (same : xs.length = ws.length) :
    select (xs ++ ys) (ws ++ vs) = select xs ws ++ select ys vs := by
  rw [select, List.zip_append same, List.filter_append, List.map_append]
  rfl

theorem select_none (xs : List α) (wanted : List Bool) (none_wanted : wanted.any id = false) :
    select xs wanted = [] := by
  rw [select, List.map_eq_nil_iff, List.filter_eq_nil_iff]
  intro entry member chosen
  rw [List.any_eq_false] at none_wanted
  exact none_wanted _ (List.of_mem_zip member).2 chosen

end select

section prune

variable (hash : H → H → H) (leaves : List H) (wanted : List Bool)

/-- Keeps the wanted leaves and what is needed to recompute the node above them. -/
def prune : (h pos : Nat) → pos < width leaves.length h → PartialTree H leaves.length h pos
  | 0, pos, inside => .leaf ((below wanted 0 pos).any id) (leaves.get ⟨pos, by simpa using inside⟩)
  | h + 1, pos, inside =>
      if (below wanted (h + 1) pos).any id then
        if two : 2 * pos + 1 < width leaves.length h then
          .fork two (prune h (2 * pos) (two_mul_lt_width inside)) (prune h (2 * pos + 1) two)
        else .single two (prune h (2 * pos) (two_mul_lt_width inside))
      else
        .pruned ((level hash (h + 1) leaves).get ⟨pos, by rw [level_length]; exact inside⟩)

theorem level_succ_getElem? (h pos : Nat) :
    (level hash (h + 1) leaves)[pos]? = (level hash h leaves)[2 * pos]?.map fun x =>
      hash x ((level hash h leaves)[2 * pos + 1]?.getD x) := by
  rw [level_succ, up_getElem?]

theorem prune_node (h pos : Nat) (inside : pos < width leaves.length h) :
    (level hash h leaves)[pos]? = some ((prune hash leaves wanted h pos inside).node hash) := by
  induction h generalizing pos with
  | zero => exact List.getElem?_eq_getElem _
  | succ h ih =>
      rw [prune]
      split
      next =>
        rw [level_succ_getElem?, ih (2 * pos) (two_mul_lt_width inside), Option.map_some]
        split
        next two =>
          rw [ih (2 * pos + 1) two]
          rfl
        next last =>
          rw [List.getElem?_eq_none (by rw [level_length]; omega)]
          rfl
      next => exact List.getElem?_eq_getElem _

theorem prune_matched (same : leaves.length = wanted.length) (h pos : Nat)
    (inside : pos < width leaves.length h) :
    (prune hash leaves wanted h pos inside).matched =
      select (below leaves h pos) (below wanted h pos) := by
  induction h generalizing pos with
  | zero =>
      have leaf : pos < leaves.length := by simpa using inside
      rw [prune, below_zero leaves pos leaf, below_zero wanted pos (same ▸ leaf)]
      simp only [PartialTree.matched, select, List.any_cons, List.any_nil, Bool.or_false, id_eq,
        List.zip_cons_cons, List.zip_nil_right, List.get_eq_getElem]
      cases wanted[pos] <;> rfl
  | succ h ih =>
      rw [prune]
      split
      next =>
        have left := ih (2 * pos) (two_mul_lt_width inside)
        rw [below_succ leaves, below_succ wanted,
          select_append _ _ _ _ (below_length_congr leaves wanted same h (2 * pos)), ← left]
        split
        next two => rw [← ih (2 * pos + 1) two, PartialTree.matched]
        next last =>
          rw [below_last leaves h (2 * pos + 1) last, PartialTree.matched]
          simp [select]
      next unwanted =>
        rw [select_none _ _ (by simpa using unwanted), PartialTree.matched]

end prune

section soundness

variable (hash : H → H → H) (leaves : List H)

theorem children_of_node (h pos : Nat) (node : H) (top : h < height leaves)
    (genuine : (level hash (h + 1) leaves)[pos]? = some node) :
    ∃ left right, (level hash h leaves)[2 * pos]? = some left ∧
      right = (level hash h leaves)[2 * pos + 1]?.getD left ∧
      (left, right) ∈ hashedPairs hash leaves ∧ hash left right = node := by
  rw [level_succ_getElem?, Option.map_eq_some_iff] at genuine
  obtain ⟨left, here, hashed⟩ := genuine
  refine ⟨left, _, here, rfl, ?_, hashed⟩
  rw [mem_hashedPairs]
  refine ⟨h, top, List.mem_of_getElem? (i := pos) ?_⟩
  rw [pairs_getElem?, here, Option.map_some]

theorem PartialTree.matched_subset {h pos : Nat} (tree : PartialTree H leaves.length h pos)
    (top : h ≤ height leaves)
    (genuine : (level hash h leaves)[pos]? = some (tree.node hash))
    (free : NoCollision hash (tree.hashed hash) (hashedPairs hash leaves)) :
    tree.matched ⊆ leaves := by
  induction tree with
  | leaf matched node =>
      intro x member
      rw [PartialTree.matched] at member
      split at member
      next =>
        rw [List.mem_singleton] at member
        subst member
        exact List.mem_of_getElem? genuine
      next => cases member
  | pruned node => exact List.nil_subset leaves
  | @single h pos last child ih =>
      obtain ⟨left, right, here, _, hashed, node⟩ := children_of_node hash leaves h pos _ top genuine
      rw [PartialTree.hashed] at free
      have same := free _ List.mem_cons_self _ hashed node.symm
      rw [(Prod.mk.inj same).1.symm] at here
      exact ih (Nat.le_of_lt top) here
        (free.mono hash (List.subset_cons_self _ _) (List.Subset.refl _))
  | @fork h pos two left right ih_left ih_right =>
      obtain ⟨x, y, here, beside, hashed, node⟩ := children_of_node hash leaves h pos _ top genuine
      rw [PartialTree.hashed] at free
      have same := free _ List.mem_cons_self _ hashed node.symm
      obtain ⟨rfl, rfl⟩ := Prod.mk.inj same
      have next : (level hash h leaves)[2 * pos + 1]? = some (right.node hash) := by
        obtain ⟨z, found⟩ : ∃ z, (level hash h leaves)[2 * pos + 1]? = some z :=
          ⟨_, List.getElem?_eq_getElem (by rw [level_length]; exact two)⟩
        rw [beside, found]
        rfl
      have children := free.mono hash (List.subset_cons_self _ _) (List.Subset.refl _)
      rw [PartialTree.matched, List.append_subset]
      exact ⟨ih_left (Nat.le_of_lt top) here
          (children.mono hash (List.subset_append_left _ _) (List.Subset.refl _)),
        ih_right (Nat.le_of_lt top) next
          (children.mono hash (List.subset_append_right _ _) (List.Subset.refl _))⟩

end soundness

end Merkle
