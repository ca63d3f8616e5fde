import Mathlib.Algebra.Group.Nat.Defs
import Mathlib.Data.List.Basic
import Mathlib.Data.Nat.Log
import Mathlib.Tactic.Common

set_option autoImplicit false

namespace Merkle

universe u

variable {H : Type u}

-- The pairs of a level; the last node stands for its missing sibling.
def pairs : List H → List (H × H)
  | [] => []
  | [x] => [(x, x)]
  | x :: y :: rest => (x, y) :: pairs rest

def repeats [DecidableEq H] : List H → Bool
  | [] => false
  | [_] => false
  | [x, y] => decide (x = y)
  | _ :: _ :: z :: rest => repeats (z :: rest)

def width (leaves k : Nat) : Nat := (leaves + 2 ^ k - 1) / 2 ^ k

def height (leaves : List H) : Nat := Nat.clog 2 leaves.length

section hashing

variable (hash : H → H → H)

def up (nodes : List H) : List H := (pairs nodes).map fun p => hash p.1 p.2

def level : Nat → List H → List H
  | 0, leaves => leaves
  | k + 1, leaves => level k (up hash leaves)

def tower : Nat → List H → List H
  | 0, nodes => nodes
  | h + 1, nodes => nodes ++ tower h (up hash nodes)

def root (leaves : List H) : Option H := (level hash (height leaves) leaves).head?

def hashedPairs (leaves : List H) : List (H × H) :=
  (List.range (height leaves)).flatMap fun k => pairs (level hash k leaves)

def mutated [DecidableEq H] (leaves : List H) : Bool :=
  (List.range (height leaves)).any fun k => repeats (level hash k leaves)

def NoCollision (ps qs : List (H × H)) : Prop :=
  ∀ p ∈ ps, ∀ q ∈ qs, hash p.1 p.2 = hash q.1 q.2 → p = q

/-- No collision between two trees, and no leaf of one is the hash of a pair of the other. -/
structure CollisionFree (a b : List H) : Prop where
  pairs : NoCollision hash (hashedPairs hash a) (hashedPairs hash b)
  left : ∀ x ∈ a, ∀ q ∈ hashedPairs hash b, x ≠ hash q.1 q.2
  right : ∀ x ∈ b, ∀ p ∈ hashedPairs hash a, x ≠ hash p.1 p.2

end hashing

@[simp] theorem pairs_length (nodes : List H) : (pairs nodes).length = (nodes.length + 1) / 2 := by
  induction nodes using pairs.induct with
  | case1 => simp [pairs]
  | case2 x => simp [pairs]
  | case3 x y rest ih =>
      simp only [pairs, List.length_cons, ih]
      omega

theorem pairs_getElem? (nodes : List H) (i : Nat) :
    (pairs nodes)[i]? = nodes[2 * i]?.map fun x => (x, nodes[2 * i + 1]?.getD x) := by
  induction nodes using pairs.induct generalizing i with
  | case1 => rfl
  | case2 x =>
      cases i with
      | zero => rfl
      | succ i => simp [pairs]
  | case3 x y rest ih =>
      cases i with
      | zero => rfl
      | succ i =>
          have first : 2 * (i + 1) = 2 * i + 2 := by omega
          have second : 2 * (i + 1) + 1 = 2 * i + 1 + 2 := by omega
          rw [second, first]
          exact ih i

theorem eq_of_pairs [DecidableEq H] (a b : List H) (left : repeats a = false)
    (right : repeats b = false) (same : pairs a = pairs b) : a = b := by
  induction a using pairs.induct generalizing b with
  | case1 =>
      cases b with
      | nil => rfl
      | cons z b => cases b <;> cases same
  | case2 x =>
      match b with
      | [] => cases same
      | [z] =>
          cases same
          rfl
      | [z, w] =>
          cases same
          simp [repeats] at right
      | z :: w :: v :: rest =>
          have length := congrArg List.length same
          simp only [pairs_length, List.length_cons, List.length_nil] at length
          omega
  | case3 x y rest ih =>
      match b with
      | [] => cases same
      | [z] =>
          have length := congrArg List.length same
          simp only [pairs_length, List.length_cons, List.length_nil] at length
          have none_left : rest = [] := List.length_eq_zero_iff.mp (by omega)
          subst none_left
          cases same
          simp [repeats] at left
      | z :: w :: tail =>
          simp only [pairs, List.cons.injEq, Prod.mk.injEq] at same
          obtain ⟨⟨rfl, rfl⟩, later⟩ := same
          have shorter (x y : H) (rest : List H) (clean : repeats (x :: y :: rest) = false) :
              repeats rest = false := by
            cases rest with
            | nil => rfl
            | cons z rest => exact clean
          rw [ih tail (shorter x y rest left) (shorter x y tail right) later]

section widths

@[simp] theorem width_zero (leaves : Nat) : width leaves 0 = leaves := by
  simp [width]

theorem width_succ (leaves k : Nat) : width leaves (k + 1) = (width leaves k + 1) / 2 := by
  have positive : 0 < 2 ^ k := Nat.two_pow_pos k
  have twice : 2 ^ (k + 1) = 2 ^ k * 2 := Nat.pow_succ ..
  unfold width
  rw [← Nat.add_div_right _ positive, Nat.div_div_eq_div_mul, twice]
  congr 1
  omega

theorem width_pos (leaves k : Nat) (some_leaf : 0 < leaves) : 0 < width leaves k := by
  have positive : 0 < 2 ^ k := Nat.two_pow_pos k
  exact Nat.div_pos (by omega) positive

theorem width_le_one_iff (leaves k : Nat) : width leaves k ≤ 1 ↔ leaves ≤ 2 ^ k := by
  have positive : 0 < 2 ^ k := Nat.two_pow_pos k
  rw [← Nat.lt_succ_iff, width, Nat.div_lt_iff_lt_mul positive]
  omega

theorem width_le_one (leaves k : Nat) : width leaves k ≤ 1 ↔ Nat.clog 2 leaves ≤ k := by
  rw [width_le_one_iff, Nat.clog_le_iff_le_pow Nat.one_lt_two]

theorem lt_width_iff (leaves k pos : Nat) : pos < width leaves k ↔ pos * 2 ^ k < leaves := by
  have positive : 0 < 2 ^ k := Nat.two_pow_pos k
  rw [width, ← Nat.succ_le_iff, Nat.le_div_iff_mul_le positive, Nat.succ_mul]
  omega

end widths

section hashing

variable (hash : H → H → H)

@[simp] theorem up_length (nodes : List H) : (up hash nodes).length = (nodes.length + 1) / 2 := by
  simp [up]

theorem up_getElem? (nodes : List H) (i : Nat) :
    (up hash nodes)[i]? = nodes[2 * i]?.map fun x => hash x (nodes[2 * i + 1]?.getD x) := by
  rw [up, List.getElem?_map, pairs_getElem?, Option.map_map]
  rfl

theorem up_sibling (nodes : List H) (i s : Nat) (x sibling : H) (here : nodes[i]? = some x)
    (beside : nodes[s]? = some sibling)
    (index : s = min (if i % 2 = 0 then i + 1 else i - 1) (nodes.length - 1)) :
    (up hash nodes)[i / 2]? = some (if i % 2 = 1 then hash sibling x else hash x sibling) := by
  obtain ⟨inside, _⟩ := List.getElem?_eq_some_iff.mp here
  rw [up_getElem?]
  rcases Nat.mod_two_eq_zero_or_one i with even | odd
  · have first : 2 * (i / 2) = i := by omega
    rw [if_pos even] at index
    rw [first, here, Option.map_some, if_neg (by omega)]
    by_cases last : i + 1 < nodes.length
    · have next : s = i + 1 := by omega
      rw [← next, beside]
      rfl
    · have same : s = i := by omega
      rw [same, here] at beside
      rw [List.getElem?_eq_none (by omega), Option.getD_none, Option.some.inj beside]
  · have second : 2 * (i / 2) + 1 = i := by omega
    have first : 2 * (i / 2) = s := by
      rw [if_neg (by omega)] at index
      omega
    rw [second, here, first, beside, Option.map_some, if_pos odd]
    rfl

theorem level_succ (k : Nat) (leaves : List H) :
    level hash (k + 1) leaves = up hash (level hash k leaves) := by
  induction k generalizing leaves with
  | zero => rfl
  | succ k ih => exact ih (up hash leaves)

theorem level_length (k : Nat) (leaves : List H) :
    (level hash k leaves).length = width leaves.length k := by
  induction k with
  | zero => exact (width_zero _).symm
  | succ k ih => rw [level_succ, up_length, ih, width_succ]

theorem height_zero (leaves : List H) (zero : height leaves = 0) (some_leaf : leaves ≠ []) :
    ∃ x, leaves = [x] := by
  have short : leaves.length ≤ 1 := (width_zero leaves.length) ▸
    (width_le_one leaves.length 0).mpr (Nat.le_of_eq zero)
  have positive := List.length_pos_iff.mpr some_leaf
  exact List.length_eq_one_iff.mp (by omega)

theorem height_up (leaves : List H) (several : 2 ≤ leaves.length) :
    height leaves = height (up hash leaves) + 1 := by
  unfold height
  rw [up_length]
  exact Nat.clog_of_two_le Nat.one_lt_two several

theorem two_le_of_height (leaves : List H) (tall : 0 < height leaves) : 2 ≤ leaves.length := by
  by_contra short
  have flat := Nat.clog_of_right_le_one (show leaves.length ≤ 1 by omega) 2
  unfold height at tall
  omega

theorem up_ne_nil (leaves : List H) (several : 2 ≤ leaves.length) : up hash leaves ≠ [] := by
  rw [← List.length_pos_iff, up_length]
  omega

theorem root_up (leaves : List H) (several : 2 ≤ leaves.length) :
    root hash leaves = root hash (up hash leaves) := by
  rw [root, height_up hash leaves several]
  rfl

theorem mem_hashedPairs (leaves : List H) (p : H × H) :
    p ∈ hashedPairs hash leaves ↔ ∃ k < height leaves, p ∈ pairs (level hash k leaves) := by
  simp only [hashedPairs, List.mem_flatMap, List.mem_range]

theorem hashedPairs_up (leaves : List H) (several : 2 ≤ leaves.length) :
    hashedPairs hash leaves = pairs leaves ++ hashedPairs hash (up hash leaves) := by
  rw [hashedPairs, height_up hash leaves several, List.range_succ_eq_map, List.flatMap_cons,
    List.flatMap_map]
  rfl

theorem mutated_up [DecidableEq H] (leaves : List H) (several : 2 ≤ leaves.length) :
    mutated hash leaves = (repeats leaves || mutated hash (up hash leaves)) := by
  rw [mutated, height_up hash leaves several, List.range_succ_eq_map, List.any_cons, List.any_map]
  rfl

theorem NoCollision.symm {ps qs : List (H × H)} (free : NoCollision hash ps qs) :
    NoCollision hash qs ps :=
  fun q right p left same => (free p left q right same.symm).symm

theorem NoCollision.mono {ps qs fewer less : List (H × H)} (free : NoCollision hash ps qs)
    (left : fewer ⊆ ps) (right : less ⊆ qs) : NoCollision hash fewer less :=
  fun p inside q beside => free p (left inside) q (right beside)

theorem root_isSome (leaves : List H) (some_leaf : leaves ≠ []) :
    ∃ x, root hash leaves = some x ∧ level hash (height leaves) leaves = [x] := by
  have length : (level hash (height leaves) leaves).length = 1 := by
    rw [level_length]
    have least := width_pos leaves.length (height leaves) (List.length_pos_iff.mpr some_leaf)
    have most := (width_le_one leaves.length (height leaves)).mpr (Nat.le_refl _)
    omega
  obtain ⟨x, single⟩ := List.length_eq_one_iff.mp length
  exact ⟨x, by rw [root, single]; rfl, single⟩

theorem tower_getLast? (h : Nat) (nodes : List H) (some_node : level hash h nodes ≠ []) :
    (tower hash h nodes).getLast? = (level hash h nodes).getLast? := by
  induction h generalizing nodes with
  | zero => rfl
  | succ h ih =>
      have above := ih (up hash nodes) some_node
      rw [tower, List.getLast?_append, above]
      obtain ⟨x, last⟩ : ∃ x, (level hash h (up hash nodes)).getLast? = some x :=
        Option.isSome_iff_exists.mp (List.getLast?_isSome.mpr some_node)
      rw [level, last]
      rfl

theorem head_descends (n : Nat) (a b : List H) (d : Nat) (short : height a = n)
    (tall : height b = n + d) (some_a : a ≠ []) (some_b : b ≠ [])
    (free : NoCollision hash (hashedPairs hash a) (hashedPairs hash b))
    (same : root hash a = root hash b) : a.head? = (level hash d b).head? := by
  induction n generalizing a b with
  | zero =>
      obtain ⟨x, rfl⟩ := height_zero a short some_a
      rw [root, short, root, tall, Nat.zero_add] at same
      exact same
  | succ n ih =>
      have several_a := two_le_of_height a (by omega)
      have several_b := two_le_of_height b (by omega)
      have up_a := height_up hash a several_a
      have up_b := height_up hash b several_b
      rw [root_up hash a several_a, root_up hash b several_b] at same
      have pairs_a := hashedPairs_up hash a several_a
      have pairs_b := hashedPairs_up hash b several_b
      have above := ih (up hash a) (up hash b) (by omega) (by omega)
        (up_ne_nil hash a several_a) (up_ne_nil hash b several_b)
        (free.mono hash (pairs_a ▸ List.subset_append_right _ _)
          (pairs_b ▸ List.subset_append_right _ _)) same
      have climb : level hash d (up hash b) = up hash (level hash d b) := level_succ hash d b
      have inside : 0 < (level hash d b).length := by
        rw [level_length]
        exact width_pos _ _ (by omega)
      obtain ⟨x, first_a⟩ : ∃ x, a[0]? = some x := ⟨_, List.getElem?_eq_getElem (by omega)⟩
      obtain ⟨y, first_b⟩ : ∃ y, (level hash d b)[0]? = some y :=
        ⟨_, List.getElem?_eq_getElem inside⟩
      have pair_a : (pairs a)[0]? = some (x, a[1]?.getD x) := by
        rw [pairs_getElem?, Nat.mul_zero, first_a]
        rfl
      have pair_b : (pairs (level hash d b))[0]? = some (y, (level hash d b)[1]?.getD y) := by
        rw [pairs_getElem?, Nat.mul_zero, first_b]
        rfl
      rw [climb, List.head?_eq_getElem?, List.head?_eq_getElem?, up, up, List.getElem?_map,
        List.getElem?_map, pair_a, pair_b, Option.map_some, Option.map_some, Option.some_inj] at above
      have hashed_a : (x, a[1]?.getD x) ∈ hashedPairs hash a :=
        pairs_a ▸ List.mem_append_left _ (List.mem_of_getElem? pair_a)
      have hashed_b : (y, (level hash d b)[1]?.getD y) ∈ hashedPairs hash b :=
        (mem_hashedPairs hash b _).mpr ⟨d, by omega, List.mem_of_getElem? pair_b⟩
      have equal := free _ hashed_a _ hashed_b above
      rw [List.head?_eq_getElem?, List.head?_eq_getElem?, first_a, first_b,
        (Prod.mk.inj equal).1]

theorem pairs_eq_of_up (a b : List H) (free : NoCollision hash (pairs a) (pairs b))
    (above : up hash a = up hash b) : pairs a = pairs b := by
  have length : (pairs a).length = (pairs b).length := by
    have lengths := congrArg List.length above
    simpa [up] using lengths
  apply List.ext_getElem length
  intro i inside_a inside_b
  have nodes := congrArg (fun nodes => nodes[i]?) above
  simp only [up, List.getElem?_map, List.getElem?_eq_getElem inside_a,
    List.getElem?_eq_getElem inside_b, Option.map_some, Option.some_inj] at nodes
  exact free _ (List.getElem_mem inside_a) _ (List.getElem_mem inside_b) nodes

theorem eq_of_height [DecidableEq H] (n : Nat) (a b : List H) (left : height a = n)
    (right : height b = n) (some_a : a ≠ []) (some_b : b ≠ []) (clean_a : mutated hash a = false)
    (clean_b : mutated hash b = false)
    (free : NoCollision hash (hashedPairs hash a) (hashedPairs hash b))
    (same : root hash a = root hash b) : a = b := by
  induction n generalizing a b with
  | zero =>
      obtain ⟨x, rfl⟩ := height_zero a left some_a
      obtain ⟨y, rfl⟩ := height_zero b right some_b
      rw [root, left, root, right] at same
      cases same
      rfl
  | succ n ih =>
      have several_a := two_le_of_height a (by omega)
      have several_b := two_le_of_height b (by omega)
      have up_a := height_up hash a several_a
      have up_b := height_up hash b several_b
      rw [root_up hash a several_a, root_up hash b several_b] at same
      rw [mutated_up hash a several_a, Bool.or_eq_false_iff] at clean_a
      rw [mutated_up hash b several_b, Bool.or_eq_false_iff] at clean_b
      rw [hashedPairs_up hash a several_a, hashedPairs_up hash b several_b] at free
      have above : up hash a = up hash b :=
        ih (up hash a) (up hash b) (by omega) (by omega) (up_ne_nil hash a several_a)
          (up_ne_nil hash b several_b) clean_a.2 clean_b.2
          (free.mono hash (List.subset_append_right _ _) (List.subset_append_right _ _)) same
      apply eq_of_pairs a b clean_a.1 clean_b.1
      exact pairs_eq_of_up hash a b
        (free.mono hash (List.subset_append_left _ _) (List.subset_append_left _ _)) above

theorem level_head_hashed (d : Nat) (leaves : List H) (inside : d < height leaves) :
    ∃ p ∈ hashedPairs hash leaves, (level hash (d + 1) leaves).head? = some (hash p.1 p.2) := by
  have positive : 0 < (pairs (level hash d leaves)).length := by
    rw [pairs_length, level_length]
    have several := two_le_of_height leaves (by omega)
    have some_node := width_pos leaves.length d (by omega)
    omega
  have hashed : (pairs (level hash d leaves))[0] ∈ hashedPairs hash leaves :=
    (mem_hashedPairs hash leaves _).mpr ⟨d, inside, List.getElem_mem positive⟩
  refine ⟨_, hashed, ?_⟩
  rw [level_succ, up, List.head?_map, List.head?_eq_getElem?, List.getElem?_eq_getElem positive]
  rfl

theorem height_le_of_root (a b : List H) (some_a : a ≠ []) (some_b : b ≠ [])
    (free : NoCollision hash (hashedPairs hash a) (hashedPairs hash b))
    (leaves : ∀ x ∈ a, ∀ q ∈ hashedPairs hash b, x ≠ hash q.1 q.2)
    (same : root hash a = root hash b) : height b ≤ height a := by
  by_contra taller
  obtain ⟨d, above⟩ : ∃ d, height b = height a + (d + 1) := ⟨height b - height a - 1, by omega⟩
  have first := head_descends hash (height a) a b (d + 1) rfl above some_a some_b free same
  obtain ⟨q, hashed, head⟩ := level_head_hashed hash d b (by omega)
  rw [head] at first
  exact leaves _ (List.mem_of_head? first) q hashed rfl

/-- The root determines the leaves, if no level ends with a repeated node and nothing collides. -/
theorem eq_of_root [DecidableEq H] (a b : List H) (some_a : a ≠ []) (some_b : b ≠ [])
    (clean_a : mutated hash a = false) (clean_b : mutated hash b = false)
    (free : CollisionFree hash a b) (same : root hash a = root hash b) : a = b := by
  have down := height_le_of_root hash a b some_a some_b free.pairs free.left same
  have up := height_le_of_root hash b a some_b some_a (free.pairs.symm hash) free.right same.symm
  exact eq_of_height hash (height a) a b rfl (Nat.le_antisymm down up) some_a some_b clean_a
    clean_b free.pairs same

end hashing

end Merkle
