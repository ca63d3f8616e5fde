import Mathlib.Data.Finset.Union
import Mathlib.Logic.Relation
import Mathlib.Tactic.Common

set_option autoImplicit false

/-! Connected components of a family of groups, by merging the groups into disjoint blocks. -/

namespace Components

variable {A : Type} [DecidableEq A]

def hits (blocks : Finset (Finset A)) (group : Finset A) : Finset (Finset A) :=
  blocks.filter fun block => (block ∩ group).Nonempty

def merged (blocks : Finset (Finset A)) (group : Finset A) : Finset A :=
  group ∪ (hits blocks group).biUnion id

def merge (blocks : Finset (Finset A)) (group : Finset A) : Finset (Finset A) :=
  insert (merged blocks group) (blocks \ hits blocks group)

structure Separated (blocks : Finset (Finset A)) : Prop where
  nonempty : ∀ block ∈ blocks, block.Nonempty
  same : ∀ block ∈ blocks, ∀ other ∈ blocks, ∀ a ∈ block, a ∈ other → block = other

def Together (blocks : Finset (Finset A)) (a b : A) : Prop := ∃ block ∈ blocks, a ∈ block ∧ b ∈ block

def Linked (groups : List (Finset A)) (a b : A) : Prop := ∃ group ∈ groups, a ∈ group ∧ b ∈ group

theorem mem_hits (blocks : Finset (Finset A)) (group block : Finset A) :
    block ∈ hits blocks group ↔ block ∈ blocks ∧ ∃ a ∈ block, a ∈ group := by
  rw [hits, Finset.mem_filter]
  refine and_congr_right fun _ => exists_congr fun a => ?_
  rw [Finset.mem_inter]

theorem mem_merged (blocks : Finset (Finset A)) (group : Finset A) (a : A) :
    a ∈ merged blocks group ↔ a ∈ group ∨ ∃ block ∈ hits blocks group, a ∈ block := by
  rw [merged, Finset.mem_union, Finset.mem_biUnion]
  rfl

theorem mem_merge (blocks : Finset (Finset A)) (group block : Finset A) :
    block ∈ merge blocks group ↔
      block = merged blocks group ∨ block ∈ blocks ∧ block ∉ hits blocks group := by
  rw [merge, Finset.mem_insert, Finset.mem_sdiff]

theorem Separated.apart {blocks : Finset (Finset A)} (separated : Separated blocks) (group : Finset A)
    {block : Finset A} (member : block ∈ blocks) (missed : block ∉ hits blocks group) {a : A}
    (mem : a ∈ block) : a ∉ merged blocks group := by
  intro both
  rcases (mem_merged blocks group a).mp both with inGroup | ⟨other, hit, inOther⟩
  · exact missed ((mem_hits blocks group block).mpr ⟨member, a, mem, inGroup⟩)
  · have same := separated.same block member other ((mem_hits blocks group other).mp hit).1 a mem
      inOther
    exact missed (same ▸ hit)

theorem Separated.merge {blocks : Finset (Finset A)} (separated : Separated blocks) (group : Finset A)
    (nonempty : group.Nonempty) : Separated (merge blocks group) where
  nonempty block member := by
    rcases (mem_merge blocks group block).mp member with rfl | ⟨member, _⟩
    · exact nonempty.mono Finset.subset_union_left
    · exact separated.nonempty block member
  same block member other otherMember a mem otherMem := by
    rcases (mem_merge blocks group block).mp member with rfl | ⟨member, missed⟩ <;>
      rcases (mem_merge blocks group other).mp otherMember with rfl | ⟨otherMember, otherMissed⟩
    · rfl
    · exact absurd mem (separated.apart group otherMember otherMissed otherMem)
    · exact absurd otherMem (separated.apart group member missed mem)
    · exact separated.same block member other otherMember a mem otherMem

omit [DecidableEq A] in
theorem Separated.trans {blocks : Finset (Finset A)} (separated : Separated blocks) {a b c : A}
    (first : Together blocks a b) (second : Together blocks b c) : Together blocks a c := by
  obtain ⟨block, member, memA, memB⟩ := first
  obtain ⟨other, otherMember, otherB, memC⟩ := second
  have same := separated.same block member other otherMember b memB otherB
  exact ⟨block, member, memA, same ▸ memC⟩

theorem together_merge (blocks : Finset (Finset A)) (group : Finset A) (a b : A)
    (together : Together blocks a b ∨ a ∈ group ∧ b ∈ group) :
    Together (merge blocks group) a b := by
  rcases together with ⟨block, member, memA, memB⟩ | ⟨memA, memB⟩
  · by_cases hit : block ∈ hits blocks group
    · refine ⟨merged blocks group, (mem_merge ..).mpr (Or.inl rfl), ?_, ?_⟩
      · exact (mem_merged ..).mpr (Or.inr ⟨block, hit, memA⟩)
      · exact (mem_merged ..).mpr (Or.inr ⟨block, hit, memB⟩)
    · exact ⟨block, (mem_merge ..).mpr (Or.inr ⟨member, hit⟩), memA, memB⟩
  · refine ⟨merged blocks group, (mem_merge ..).mpr (Or.inl rfl), ?_, ?_⟩
    · exact (mem_merged ..).mpr (Or.inl memA)
    · exact (mem_merged ..).mpr (Or.inl memB)

theorem merged_linked (blocks : Finset (Finset A)) (group : Finset A) (a : A)
    (mem : a ∈ merged blocks group) : a ∈ group ∨ ∃ b ∈ group, Together blocks a b := by
  rcases (mem_merged blocks group a).mp mem with mem | ⟨block, hit, mem⟩
  · exact Or.inl mem
  · obtain ⟨member, b, memB, inGroup⟩ := (mem_hits blocks group block).mp hit
    exact Or.inr ⟨b, inGroup, block, member, mem, memB⟩

structure Connected (groups : List (Finset A)) (blocks : Finset (Finset A)) : Prop where
  separated : Separated blocks
  together : ∀ a b, Together blocks a b ↔ Relation.TransGen (Linked groups) a b

omit [DecidableEq A] in
theorem linked_append (groups : List (Finset A)) (group : Finset A) (a b : A) :
    Linked (groups ++ [group]) a b ↔ Linked groups a b ∨ a ∈ group ∧ b ∈ group := by
  constructor
  · rintro ⟨other, member, mem⟩
    rcases List.mem_append.mp member with member | member
    · exact Or.inl ⟨other, member, mem⟩
    · exact Or.inr (List.mem_singleton.mp member ▸ mem)
  · rintro (⟨other, member, mem⟩ | mem)
    · exact ⟨other, List.mem_append_left _ member, mem⟩
    · exact ⟨group, List.mem_append_right _ List.mem_cons_self, mem⟩

theorem Connected.merge {groups : List (Finset A)} {blocks : Finset (Finset A)}
    (connected : Connected groups blocks) (group : Finset A) (nonempty : group.Nonempty) :
    Connected (groups ++ [group]) (merge blocks group) where
  separated := connected.separated.merge group nonempty
  together a b := by
    have earlier {a b : A} (together : Together blocks a b) :
        Relation.TransGen (Linked (groups ++ [group])) a b :=
      Relation.TransGen.mono
        (fun a b linked => (linked_append groups group a b).mpr (Or.inl linked)) a b
        ((connected.together a b).mp together)
    have within {a b : A} (memA : a ∈ group) (memB : b ∈ group) :
        Relation.TransGen (Linked (groups ++ [group])) a b :=
      .single ((linked_append groups group a b).mpr (Or.inr ⟨memA, memB⟩))
    constructor
    · rintro ⟨block, member, memA, memB⟩
      rcases (mem_merge blocks group block).mp member with rfl | ⟨member, _⟩
      · -- Both are linked to elements of the group, and these to each other.
        have toGroup (x : A) (mem : x ∈ merged blocks group) :
            ∃ y ∈ group, Relation.TransGen (Linked (groups ++ [group])) x y ∧
              Relation.TransGen (Linked (groups ++ [group])) y x := by
          rcases merged_linked blocks group x mem with mem | ⟨y, memY, block, member, memX, mem⟩
          · exact ⟨x, mem, within mem mem, within mem mem⟩
          · exact ⟨y, memY, earlier ⟨block, member, memX, mem⟩, earlier ⟨block, member, mem, memX⟩⟩
        obtain ⟨y, memY, fromA, _⟩ := toGroup a memA
        obtain ⟨z, memZ, _, toB⟩ := toGroup b memB
        exact (fromA.trans (within memY memZ)).trans toB
      · exact earlier ⟨block, member, memA, memB⟩
    · intro chain
      have step (x y : A) (linked : Linked (groups ++ [group]) x y) :
          Together (Components.merge blocks group) x y := by
        refine together_merge blocks group x y ?_
        refine ((linked_append groups group x y).mp linked).imp_left fun linked => ?_
        exact (connected.together x y).mpr (.single linked)
      induction chain with
      | single linked => exact step _ _ linked
      | tail _ linked ih =>
          exact (connected.separated.merge group nonempty).trans ih (step _ _ linked)

omit [DecidableEq A] in
theorem connected_nil : Connected ([] : List (Finset A)) ∅ where
  separated := ⟨fun _ member => absurd member (Finset.notMem_empty _),
    fun _ member => absurd member (Finset.notMem_empty _)⟩
  together a b := by
    constructor
    · rintro ⟨block, member, _⟩
      exact absurd member (Finset.notMem_empty _)
    · intro chain
      have never (x y : A) : ¬ Linked [] x y := fun ⟨_, member, _⟩ => nomatch member
      cases chain with
      | single linked => exact absurd linked (never _ _)
      | tail _ linked => exact absurd linked (never _ _)

theorem Connected.foldl {groups : List (Finset A)} {blocks : Finset (Finset A)}
    (connected : Connected groups blocks) (rest : List (Finset A))
    (nonempty : ∀ group ∈ rest, group.Nonempty) :
    Connected (groups ++ rest) (rest.foldl Components.merge blocks) := by
  induction rest generalizing groups blocks with
  | nil =>
      rw [List.append_nil]
      exact connected
  | cons group rest ih =>
      rw [List.append_cons]
      refine ih (connected.merge group (nonempty group List.mem_cons_self)) fun other member => ?_
      exact nonempty other (List.mem_cons_of_mem _ member)

theorem components_connected (groups : List (Finset A))
    (nonempty : ∀ group ∈ groups, group.Nonempty) :
    Connected groups (groups.foldl merge ∅) := by
  have connected := connected_nil.foldl groups nonempty
  rw [List.nil_append] at connected
  exact connected

end Components
