import Mathlib.Data.Finset.Lattice.Fold
import Mathlib.Data.List.Sort
import Mathlib.Order.Lattice.Nat
import CryptoYen.Library.Heap
import CryptoYen.Library.Machine

set_option autoImplicit false

namespace CryptoYen

structure LimitedNode (K V : Type) where
  it : Nat
  key : K
  value : V
  deriving DecidableEq, Repr

/-- Keeps the N elements with the highest value: rmap is ordered by the values and its entries
hold iterators into map. -/
structure LimitedMap (K V : Type) where
  map : List (LimitedNode K V)
  rmap : List (V × Nat)
  nMaxSize : Nat
  deriving DecidableEq, Repr

namespace LimitedMap

variable {K V : Type}

def empty (nMaxSizeIn : Nat) : LimitedMap K V := ⟨[], [], nMaxSizeIn⟩

section operations

variable [DecidableEq K] [LinearOrder V]

-- multimap::insert: behind the entries with the same value.
def insertEntry (v : V) (it : Nat) (rmap : List (V × Nat)) : List (V × Nat) :=
  rmap.orderedInsert (fun a b => a.1 < b.1) (v, it)

-- The loop over equal_range; none is the assert(0) behind it.
def eraseEntry (v : V) (it : Nat) (rmap : List (V × Nat)) : Option (List (V × Nat)) :=
  if (v, it) ∈ rmap then some (rmap.erase (v, it)) else none

variable (allocator : Heap.Allocator) (m : LimitedMap K V)

def find (k : K) : Option (LimitedNode K V) := m.map.find? (·.key = k)

-- map.erase(rmap.begin()->second) and rmap.erase(rmap.begin()); none where an iterator is not valid.
def evict : Option (LimitedMap K V) :=
  match m.rmap with
  | [] => none
  | (_, it) :: rest =>
      if m.map.any (·.it = it) then some { m with map := m.map.filter (·.it ≠ it), rmap := rest }
      else none

def insert (k : K) (v : V) : Option (LimitedMap K V) :=
  if (m.find k).isSome then some m
  else
    let it := allocator.new (m.map.map LimitedNode.it).toFinset
    let grown := { m with map := ⟨it, k, v⟩ :: m.map }
    (if m.nMaxSize ≠ 0 ∧ grown.map.length = m.nMaxSize then grown.evict else some grown).map
      fun kept => { kept with rmap := insertEntry v it kept.rmap }

def erase (k : K) : Option (LimitedMap K V) :=
  match m.find k with
  | none => some m
  | some itTarget =>
      (eraseEntry itTarget.value itTarget.it m.rmap).map fun rmap =>
        { m with map := m.map.filter (·.it ≠ itTarget.it), rmap := rmap }

-- The iterator that is handed over is the one of a key.
def update (k : K) (v : V) : Option (LimitedMap K V) :=
  match m.find k with
  | none => some m
  | some itTarget =>
      (eraseEntry itTarget.value itTarget.it m.rmap).map fun rmap =>
        { m with
          map := m.map.map fun node =>
            if node.it = itTarget.it then { node with value := v } else node
          rmap := insertEntry v itTarget.it rmap }

-- while (map.size() > s), with one step for each element at most.
def shrink (s : Nat) : Nat → LimitedMap K V → Option (LimitedMap K V)
  | 0, m => some m
  | fuel + 1, m => if s < m.map.length then m.evict.bind (shrink s fuel) else some m

def maxSize (s : Nat) : Option (LimitedMap K V) :=
  (if s ≠ 0 then shrink s m.map.length m else some m).map fun kept => { kept with nMaxSize := s }

end operations

inductive Op (K V : Type)
  | insert (k : K) (v : V)
  | erase (k : K)
  | update (k : K) (v : V)
  | maxSize (s : Nat)
  deriving DecidableEq, Repr

def step [DecidableEq K] [LinearOrder V] (allocator : Heap.Allocator) (m : LimitedMap K V) : Op K V → Option (LimitedMap K V)
  | .insert k v => m.insert allocator k v
  | .erase k => m.erase k
  | .update k v => m.update k v
  | .maxSize s => m.maxSize s

section mirror

def entry (node : LimitedNode K V) : V × Nat := (node.value, node.it)

structure Mirrors (m : LimitedMap K V) (news olds : List (LimitedNode K V)) : Prop where
  map : m.map = news ++ olds
  rmap : m.rmap.Perm (olds.map entry)
  separate : (m.map.map LimitedNode.it).Nodup

def Mirrored (m : LimitedMap K V) : Prop := m.Mirrors [] m.map

theorem perm_filter (nodes : List (LimitedNode K V)) (node : LimitedNode K V) (mem : node ∈ nodes)
    (separate : (nodes.map LimitedNode.it).Nodup) :
    nodes.Perm (node :: nodes.filter (·.it ≠ node.it)) := by
  induction nodes with
  | nil => exact absurd mem List.not_mem_nil
  | cons head rest ih =>
      obtain ⟨outside, others⟩ := List.nodup_cons.mp separate
      rcases List.mem_cons.mp mem with rfl | later
      · have kept : rest.filter (·.it ≠ node.it) = rest :=
          List.filter_eq_self.mpr fun other inside =>
            decide_eq_true fun same => outside (same ▸ List.mem_map_of_mem inside)
        rw [List.filter_cons_of_neg (by simp), kept]
      · have apart : head.it ≠ node.it := fun same =>
          outside (same ▸ List.mem_map_of_mem later)
        rw [List.filter_cons_of_pos (by simpa using apart)]
        exact ((ih later others).cons head).trans (.swap node head _)

theorem separate_filter (nodes : List (LimitedNode K V)) (keeps : LimitedNode K V → Bool)
    (separate : (nodes.map LimitedNode.it).Nodup) :
    ((nodes.filter keeps).map LimitedNode.it).Nodup :=
  separate.sublist (List.filter_sublist.map _)

variable {m : LimitedMap K V} {news olds : List (LimitedNode K V)}

theorem Mirrors.remove (mirrors : m.Mirrors news olds) (node : LimitedNode K V) (mem : node ∈ olds)
    (rmap : List (V × Nat)) (left : m.rmap.Perm (entry node :: rmap)) :
    Mirrors { m with map := m.map.filter (·.it ≠ node.it), rmap := rmap } news
        (olds.filter (·.it ≠ node.it)) ∧
      (olds.filter (·.it ≠ node.it)).length + 1 = olds.length := by
  have separate := mirrors.separate
  rw [mirrors.map, List.map_append] at separate
  have apart : news.filter (·.it ≠ node.it) = news :=
    List.filter_eq_self.mpr fun other inside => decide_eq_true fun same =>
      List.disjoint_of_nodup_append separate (List.mem_map_of_mem inside)
        (same ▸ List.mem_map_of_mem mem)
  have perm := perm_filter olds node mem (List.nodup_append.mp separate).2.1
  refine ⟨⟨?_, ?_, separate_filter m.map _ mirrors.separate⟩, perm.length_eq.symm⟩
  · dsimp only
    rw [mirrors.map, List.filter_append, apart]
  · exact (left.symm.trans (mirrors.rmap.trans (perm.map entry))).cons_inv

theorem Mirrors.evict (mirrors : m.Mirrors news olds) (nonempty : olds ≠ []) :
    ∃ next kept, m.evict = some next ∧ next.Mirrors news kept ∧ kept.length + 1 = olds.length ∧
      next.nMaxSize = m.nMaxSize := by
  cases lowest : m.rmap with
  | nil =>
      have none := mirrors.rmap
      rw [lowest] at none
      exact absurd (List.map_eq_nil_iff.mp none.nil_eq.symm) nonempty
  | cons head rest =>
      obtain ⟨v, it⟩ := head
      have listed : (v, it) ∈ olds.map entry := by
        rw [← mirrors.rmap.mem_iff, lowest]
        exact List.mem_cons_self
      obtain ⟨node, mem, same⟩ := List.mem_map.mp listed
      have address : node.it = it := congrArg Prod.snd same
      have valid : m.map.any (·.it = it) = true := by
        rw [mirrors.map, List.any_eq_true]
        exact ⟨node, List.mem_append_right _ mem, decide_eq_true address⟩
      have left : m.rmap.Perm (entry node :: rest) := by rw [lowest, same]
      obtain ⟨kept, length⟩ := mirrors.remove node mem rest left
      rw [address] at kept length
      refine ⟨_, _, ?_, kept, length, rfl⟩
      rw [LimitedMap.evict, lowest]
      exact if_pos valid

theorem evict_none (empty : m.rmap = []) : m.evict = none := by rw [LimitedMap.evict, empty]

theorem Mirrored.find [DecidableEq K] [LinearOrder V] (mirrored : m.Mirrored) {k : K} {node : LimitedNode K V}
    (found : m.find k = some node) :
    node ∈ m.map ∧ ∃ rmap, eraseEntry node.value node.it m.rmap = some rmap ∧
      m.rmap.Perm (entry node :: rmap) := by
  have mem : node ∈ m.map := List.mem_of_find?_eq_some found
  have listed : (node.value, node.it) ∈ m.rmap := by
    rw [mirrored.rmap.mem_iff]
    exact List.mem_map_of_mem mem
  exact ⟨mem, _, if_pos listed, List.perm_cons_erase listed⟩

end mirror

section steps

variable [DecidableEq K] [LinearOrder V] (allocator : Heap.Allocator) {m : LimitedMap K V}

/-- The insertion of a first element where the maximum is one: there is nothing to evict yet. -/
def Starved (m : LimitedMap K V) : Op K V → Prop
  | .insert _ _ => m.map = [] ∧ m.nMaxSize = 1
  | _ => False

theorem insertEntry_perm (v : V) (it : Nat) (rmap : List (V × Nat)) :
    (insertEntry v it rmap).Perm ((v, it) :: rmap) :=
  List.perm_orderedInsert _ _ _

omit [DecidableEq K] in
theorem Mirrors.close {node : LimitedNode K V} {olds : List (LimitedNode K V)}
    (mirrors : m.Mirrors [node] olds) :
    ({ m with rmap := insertEntry node.value node.it m.rmap } : LimitedMap K V).Mirrored := by
  refine ⟨rfl, ?_, mirrors.separate⟩
  dsimp only
  rw [mirrors.map]
  exact (insertEntry_perm _ _ _).trans (mirrors.rmap.cons _)

theorem insert_mirrored (mirrored : m.Mirrored) (k : K) (v : V)
    (fed : ¬ Starved m (.insert k v)) :
    ∃ next, m.insert allocator k v = some next ∧ next.Mirrored := by
  rw [insert]
  by_cases present : (m.find k).isSome = true
  · exact ⟨m, if_pos present, mirrored⟩
  · rw [if_neg present]
    have fresh := allocator.fresh (m.map.map LimitedNode.it).toFinset
    rw [List.mem_toFinset] at fresh
    have grown : Mirrors { m with map :=
        ⟨allocator.new (m.map.map LimitedNode.it).toFinset, k, v⟩ :: m.map }
        [⟨allocator.new (m.map.map LimitedNode.it).toFinset, k, v⟩] m.map :=
      ⟨rfl, mirrored.rmap, List.nodup_cons.mpr ⟨fresh, mirrored.separate⟩⟩
    dsimp only
    split
    next full =>
      have nonempty : m.map ≠ [] := by
        rintro empty
        rw [empty] at full
        exact fed ⟨empty, full.2.symm⟩
      obtain ⟨next, kept, evicted, mirrors, _, _⟩ := grown.evict nonempty
      exact ⟨_, by rw [evicted]; rfl, mirrors.close⟩
    next => exact ⟨_, rfl, grown.close⟩

theorem insert_starved (mirrored : m.Mirrored) (k : K) (v : V)
    (starved : Starved m (.insert k v)) : m.insert allocator k v = none := by
  obtain ⟨empty, one⟩ := starved
  have none := mirrored.rmap
  rw [empty] at none
  have absent : (m.find k).isSome = false := by
    rw [find, empty]
    rfl
  rw [insert, absent, if_neg Bool.false_ne_true]
  dsimp only
  rw [if_pos ⟨by rw [one]; decide, by rw [List.length_cons, empty, one]; rfl⟩]
  refine congrArg (Option.map _) (evict_none ?_)
  exact none.eq_nil

theorem erase_mirrored (mirrored : m.Mirrored) (k : K) :
    ∃ next, m.erase k = some next ∧ next.Mirrored := by
  rw [erase]
  cases found : m.find k with
  | none => exact ⟨m, rfl, mirrored⟩
  | some itTarget =>
      obtain ⟨mem, rmap, erased, left⟩ := mirrored.find found
      dsimp only
      rw [erased]
      exact ⟨_, rfl, (mirrored.remove itTarget mem rmap left).1⟩

theorem update_mirrored (mirrored : m.Mirrored) (k : K) (v : V) :
    ∃ next, m.update k v = some next ∧ next.Mirrored := by
  rw [update]
  cases found : m.find k with
  | none => exact ⟨m, rfl, mirrored⟩
  | some itTarget =>
      obtain ⟨mem, rmap, erased, left⟩ := mirrored.find found
      have same : (m.map.map fun node =>
          if node.it = itTarget.it then { node with value := v } else node).map LimitedNode.it =
            m.map.map LimitedNode.it := by
        rw [List.map_map]
        refine List.map_congr_left fun node _ => ?_
        rw [Function.comp_apply]
        split <;> rfl
      dsimp only
      rw [erased]
      have perm := perm_filter m.map itTarget mem mirrored.separate
      have others := (left.symm.trans (mirrored.rmap.trans (perm.map entry))).cons_inv
      have changed := perm.map fun node : LimitedNode K V =>
        entry (if node.it = itTarget.it then { node with value := v } else node)
      have untouched : (m.map.filter (·.it ≠ itTarget.it)).map (fun node : LimitedNode K V =>
          entry (if node.it = itTarget.it then { node with value := v } else node)) =
            (m.map.filter (·.it ≠ itTarget.it)).map entry := by
        refine List.map_congr_left fun node inside => ?_
        rw [if_neg (of_decide_eq_true (List.mem_filter.mp inside).2)]
      rw [List.map_cons, if_pos rfl, untouched] at changed
      refine ⟨_, rfl, rfl, ?_, same ▸ mirrored.separate⟩
      rw [List.map_map]
      exact (insertEntry_perm _ _ _).trans ((others.cons _).trans changed.symm)

omit [DecidableEq K] [LinearOrder V] in
theorem shrink_mirrored (s fuel : Nat) (mirrored : m.Mirrored) :
    ∃ next, shrink s fuel m = some next ∧ next.Mirrored ∧
      (m.map.length ≤ fuel + s → next.map.length ≤ s) := by
  induction fuel generalizing m with
  | zero => exact ⟨m, rfl, mirrored, fun few => by rwa [Nat.zero_add] at few⟩
  | succ fuel ih =>
      rw [shrink]
      split
      next many =>
        have nonempty : m.map ≠ [] := by
          rintro empty
          rw [empty] at many
          cases many
        obtain ⟨next, kept, evicted, mirrors, length, _⟩ := mirrored.evict nonempty
        have again : next.Mirrored := by
          rw [Mirrored, mirrors.map]
          exact mirrors
        obtain ⟨final, ran, last, few⟩ := ih again
        refine ⟨final, by rw [evicted, Option.bind_some, ran], last, fun enough => few ?_⟩
        rw [mirrors.map, List.nil_append]
        omega
      next fits => exact ⟨m, rfl, mirrored, fun _ => Nat.le_of_not_lt fits⟩

omit [DecidableEq K] [LinearOrder V] in
theorem maxSize_mirrored (mirrored : m.Mirrored) (s : Nat) :
    ∃ next, m.maxSize s = some next ∧ next.Mirrored ∧ (s ≠ 0 → next.map.length ≤ s) := by
  rw [maxSize]
  split
  next =>
    obtain ⟨next, ran, kept, few⟩ := shrink_mirrored s m.map.length mirrored
    rw [ran]
    exact ⟨_, rfl, ⟨kept.map, kept.rmap, kept.separate⟩, fun _ => few (Nat.le_add_right _ _)⟩
  next unlimited =>
    exact ⟨_, rfl, ⟨mirrored.map, mirrored.rmap, mirrored.separate⟩, fun limit => absurd limit unlimited⟩

theorem step_mirrored (mirrored : m.Mirrored) (op : Op K V) :
    (¬ Starved m op ↔ ∃ next, m.step allocator op = some next) ∧
      ∀ next, m.step allocator op = some next → next.Mirrored := by
  have total (ran : ∃ next, m.step allocator op = some next ∧ next.Mirrored) :
      (∃ next, m.step allocator op = some next) ∧
        ∀ next, m.step allocator op = some next → next.Mirrored := by
    obtain ⟨next, stepped, kept⟩ := ran
    refine ⟨⟨next, stepped⟩, fun other same => ?_⟩
    rw [stepped] at same
    cases same
    exact kept
  cases op with
  | insert k v =>
      by_cases starved : Starved m (.insert k v)
      · have failed := insert_starved allocator mirrored k v starved
        change m.step allocator (.insert k v) = none at failed
        refine ⟨⟨fun fed => absurd starved fed, fun ⟨next, stepped⟩ => ?_⟩, fun next stepped => ?_⟩
        all_goals
          rw [failed] at stepped
          cases stepped
      · obtain ⟨ran, kept⟩ := total (insert_mirrored allocator mirrored k v starved)
        exact ⟨⟨fun _ => ran, fun _ => starved⟩, kept⟩
  | erase k =>
      obtain ⟨ran, kept⟩ := total (erase_mirrored mirrored k)
      exact ⟨⟨fun _ => ran, fun _ => id⟩, kept⟩
  | update k v =>
      obtain ⟨ran, kept⟩ := total (update_mirrored mirrored k v)
      exact ⟨⟨fun _ => ran, fun _ => id⟩, kept⟩
  | maxSize s =>
      obtain ⟨next, stepped, mirrors, _⟩ := maxSize_mirrored mirrored s
      obtain ⟨ran, kept⟩ := total ⟨next, stepped, mirrors⟩
      exact ⟨⟨fun _ => ran, fun _ => id⟩, kept⟩

end steps

section highest

variable [DecidableEq K] [LinearOrder V] (allocator : Heap.Allocator)

def pairs (m : LimitedMap K V) : List (K × V) := m.map.map fun node => (node.key, node.value)

def inserts (entries : List (K × V)) : List (Op K V) := entries.map fun x => .insert x.1 x.2

/-- After the insertions the map holds as many of the elements as it may, and none that is left out
has a higher value than one that is kept. -/
def KeepsHighest (nMaxSize : Nat) (entries : List (K × V)) : Prop :=
  ∃ final, Machine.run (step allocator) (empty nMaxSize) (inserts entries) = some final ∧
    final.pairs.length = min nMaxSize entries.length ∧ final.pairs.Nodup ∧ final.pairs ⊆ entries ∧
    ∀ kept ∈ final.pairs, ∀ left ∈ entries, left ∉ final.pairs → left.2 ≤ kept.2

variable {allocator} {m : LimitedMap K V}

variable (allocator) in
theorem insert_room (k : K) (v : V) (absent : k ∉ m.map.map LimitedNode.key)
    (room : m.map.length + 1 < m.nMaxSize) :
    ∃ next, m.insert allocator k v = some next ∧ next.pairs = (k, v) :: m.pairs ∧
      next.map.map LimitedNode.key = k :: m.map.map LimitedNode.key ∧
      next.nMaxSize = m.nMaxSize := by
  have missing : (m.find k).isSome = false := by
    rw [find, Bool.eq_false_iff, ne_eq, List.find?_isSome]
    rintro ⟨node, mem, same⟩
    exact absent (List.mem_map.mpr ⟨node, mem, of_decide_eq_true same⟩)
  rw [insert, missing, if_neg Bool.false_ne_true]
  dsimp only
  rw [if_neg (fun full => by rw [List.length_cons] at full; omega)]
  exact ⟨_, rfl, rfl, rfl, rfl⟩

variable (allocator) in
theorem run_room (entries : List (K × V)) (distinct : (entries.map Prod.fst).Nodup)
    (absent : ∀ x ∈ entries, x.1 ∉ m.map.map LimitedNode.key)
    (room : m.map.length + entries.length < m.nMaxSize) :
    ∃ final, Machine.run (step allocator) m (inserts entries) = some final ∧
      final.pairs = entries.reverse ++ m.pairs := by
  induction entries generalizing m with
  | nil => exact ⟨m, rfl, rfl⟩
  | cons x rest ih =>
      rw [List.length_cons] at room
      obtain ⟨outside, others⟩ := List.nodup_cons.mp distinct
      obtain ⟨next, inserted, pairs, keys, maximum⟩ := insert_room allocator x.1 x.2
        (absent x List.mem_cons_self) (by omega)
      have length : next.map.length = m.map.length + 1 := by
        have same := congrArg List.length keys
        rwa [List.length_map, List.length_cons, List.length_map] at same
      obtain ⟨final, ran, last⟩ := ih (m := next) others (by
        intro other mem
        rw [keys, List.mem_cons, not_or]
        refine ⟨fun same => outside ?_, absent other (List.mem_cons_of_mem _ mem)⟩
        rw [← same]
        exact List.mem_map_of_mem mem) (by rw [length, maximum]; omega)
      refine ⟨final, ?_, by rw [last, pairs, List.reverse_cons, List.append_assoc]; rfl⟩
      rw [inserts, List.map_cons, Machine.run]
      change ((m.insert allocator x.1 x.2).bind _) = _
      rw [inserted, Option.bind_some]
      exact ran

omit [DecidableEq K] [LinearOrder V] in
theorem evict_shorter {next : LimitedMap K V} (evicted : m.evict = some next) :
    next.map.length < m.map.length ∧ next.nMaxSize = m.nMaxSize := by
  rw [evict] at evicted
  split at evicted
  next => cases evicted
  next v it rest lowest =>
    split_ifs at evicted with valid
    cases evicted
    obtain ⟨node, mem, same⟩ := List.any_eq_true.mp valid
    refine ⟨List.length_filter_lt_length_iff_exists.mpr ⟨node, mem, ?_⟩, rfl⟩
    rw [decide_eq_true_eq, not_not]
    exact of_decide_eq_true same

theorem insert_below (k : K) (v : V) (below : m.map.length < m.nMaxSize) (next : LimitedMap K V)
    (inserted : m.insert allocator k v = some next) :
    next.map.length < next.nMaxSize ∧ next.nMaxSize = m.nMaxSize := by
  rw [insert] at inserted
  split_ifs at inserted
  · cases inserted
    exact ⟨below, rfl⟩
  · dsimp only at inserted
    split_ifs at inserted with full
    · obtain ⟨kept, evicted, same⟩ := Option.map_eq_some_iff.mp inserted
      obtain ⟨shorter, maximum⟩ := evict_shorter evicted
      subst same
      rw [full.2] at shorter
      dsimp only at maximum ⊢
      rw [maximum]
      exact ⟨shorter, rfl⟩
    · cases inserted
      dsimp only
      rw [List.length_cons] at full ⊢
      exact ⟨by omega, rfl⟩

theorem run_below (entries : List (K × V)) (below : m.map.length < m.nMaxSize)
    (final : LimitedMap K V)
    (ran : Machine.run (step allocator) m (inserts entries) = some final) :
    final.map.length < m.nMaxSize := by
  induction entries generalizing m with
  | nil =>
      cases ran
      exact below
  | cons x rest ih =>
      obtain ⟨next, inserted, later⟩ := Option.bind_eq_some_iff.mp ran
      obtain ⟨fewer, same⟩ := insert_below x.1 x.2 below next inserted
      rw [← same]
      exact ih fewer later

theorem keepsHighest_iff (nMaxSize : Nat) (positive : 0 < nMaxSize) (entries : List (K × V))
    (distinct : (entries.map Prod.fst).Nodup) :
    KeepsHighest allocator nMaxSize entries ↔ entries.length < nMaxSize := by
  constructor
  · rintro ⟨final, ran, length, -⟩
    have below := run_below (m := empty nMaxSize) entries positive final ran
    rw [pairs, List.length_map] at length
    change final.map.length < nMaxSize at below
    omega
  · intro few
    obtain ⟨final, ran, kept⟩ := run_room allocator (m := empty nMaxSize) entries
      distinct (fun x _ => List.not_mem_nil) (by rw [empty, List.length_nil, Nat.zero_add]; exact few)
    rw [show (empty nMaxSize : LimitedMap K V).pairs = [] from rfl, List.append_nil] at kept
    refine ⟨final, ran, ?_, ?_, ?_, ?_⟩
    · rw [kept, List.length_reverse, Nat.min_eq_right (Nat.le_of_lt few)]
    · rw [kept, List.nodup_reverse]
      exact distinct.of_map
    · rw [kept]
      exact fun x mem => List.mem_reverse.mp mem
    · intro _ _ left mem outside
      rw [kept] at outside
      exact absurd (List.mem_reverse.mpr mem) outside

end highest

section limits

variable [DecidableEq K] [LinearOrder V] (allocator : Heap.Allocator)

omit [DecidableEq K] [LinearOrder V] in
theorem empty_mirrored (nMaxSizeIn : Nat) : (empty nMaxSizeIn : LimitedMap K V).Mirrored :=
  ⟨rfl, .nil, List.nodup_nil⟩

/-- A run goes through, with the two containers in step all along, exactly when nothing is inserted
into an empty map whose maximum is one. Insertions of distinct keys keep the highest values exactly
when there are fewer of them than the maximum. -/
theorem limitedMap_keeps (nMaxSizeIn : Nat) (positive : 1 ≤ nMaxSizeIn) :
    (∀ ops : List (Op K V),
      Machine.SafeRun (step allocator) Mirrored (empty nMaxSizeIn) ops ↔
        Machine.Along (fun m op => ¬ Starved m op) (step allocator) (empty nMaxSizeIn) ops) ∧
    ∀ entries : List (K × V), (entries.map Prod.fst).Nodup →
      (KeepsHighest allocator nMaxSizeIn entries ↔ entries.length < nMaxSizeIn) := by
  refine ⟨fun ops => ?_, keepsHighest_iff nMaxSizeIn positive⟩
  refine Machine.safeRun_iff (step allocator) _ Mirrored Mirrored (fun _ => id) ?_ ?_ _ ops
    (empty_mirrored nMaxSizeIn)
  · intro m op mirrored fed
    obtain ⟨next, stepped⟩ := (step_mirrored allocator mirrored op).1.mp fed
    exact ⟨next, stepped, (step_mirrored allocator mirrored op).2 next stepped⟩
  · intro m op next mirrored stepped _
    exact (step_mirrored allocator mirrored op).1.mpr ⟨next, stepped⟩

def nextAddress : Heap.Allocator where
  new live := live.sup id + 1
  fresh live inside := by
    have bound := Finset.le_sup (f := id) inside
    rw [id] at bound
    omega

theorem limitedMap_keeps_two :
    KeepsHighest nextAddress 3 [(1, 5), (2, 4)] :=
  ((limitedMap_keeps nextAddress 3 (by decide)).2 [(1, 5), (2, 4)] (by decide)).mpr (by decide)

/-- The first insertion at the maximum of one reads what is not there; two insertions at the maximum
of two leave only the lower value. -/
theorem limitedMap_loses :
    (empty 1 : LimitedMap Nat Nat).step nextAddress (.insert 1 5) = none ∧
    (Machine.run (step nextAddress) (empty 2) (inserts [(1, 5), (2, 4)])).map pairs =
      some [((2 : Nat), (4 : Nat))] ∧
    ¬ KeepsHighest nextAddress 2 [(1, 5), (2, 4)] := by
  refine ⟨by decide, by decide, ?_⟩
  rw [keepsHighest_iff 2 (by decide) _ (by decide)]
  decide

end limits

end LimitedMap

end CryptoYen
