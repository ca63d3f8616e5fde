import CryptoYen.Library.Components
import CryptoYen.Library.Heap
import CryptoYen.Wallet.AvailableCoins
import Mathlib.Data.Finset.Option
import Mathlib.Data.Finset.Sort

set_option autoImplicit false

namespace CryptoYen

namespace Wallet

structure AddressWallet where
  mapWallet : List (Uint256 × CTransaction)
  isMine : CScript → IsMineType
  mapAddressBook : List CTxDestination

section groupings

variable [ScriptCrypto] (wallet : AddressWallet)

def ownAddress (txout : CTxOut) : Option CTxDestination :=
  if wallet.isMine txout.scriptPubKey = .no then none else extractDestination txout.scriptPubKey

def changeAddress (txout : CTxOut) : Option CTxDestination :=
  if isChange wallet.isMine wallet.mapAddressBook txout then extractDestination txout.scriptPubKey
  else none

def inputAddress (txin : CTxIn) : Option CTxDestination :=
  ((wallet.mapWallet.lookup txin.prevout.hash).bind fun prev => prev.vout[txin.prevout.n]?).bind
    (ownAddress wallet)

def inputAddresses (tx : CTransaction) : Finset CTxDestination :=
  (tx.vin.filterMap (inputAddress wallet)).toFinset

def changeAddresses (tx : CTransaction) : Finset CTxDestination :=
  (tx.vout.filterMap (changeAddress wallet)).toFinset

def inputGrouping (tx : CTransaction) : Finset CTxDestination :=
  let any_mine := inputAddresses wallet tx ≠ ∅
  inputAddresses wallet tx ∪ if any_mine then changeAddresses wallet tx else ∅

def loneGroupings (tx : CTransaction) : List (Finset CTxDestination) :=
  (tx.vout.filterMap (ownAddress wallet)).map fun address => {address}

def txGroupings (tx : CTransaction) : List (Finset CTxDestination) :=
  (if inputGrouping wallet tx = ∅ then [] else [inputGrouping wallet tx]) ++ loneGroupings wallet tx

def allGroupings : Finset (Finset CTxDestination) :=
  (wallet.mapWallet.flatMap fun walletEntry => txGroupings wallet walletEntry.2).toFinset

end groupings

structure GroupPointers (A : Type) where
  memory : Heap.Memory (Finset A)
  uniqueGroupings : Finset Nat
  setmap : A → Option Nat

section merging

variable {A : Type} [DecidableEq A]

def mergeHit (merged : Nat) (st : GroupPointers A) (hit : Nat) : Option (GroupPointers A) :=
  (st.memory.deref hit).bind fun group =>
    (st.memory.deref merged).map fun whole =>
      { st with
        memory := (st.memory.assign merged (whole ∪ group)).free hit
        uniqueGroupings := st.uniqueGroupings.erase hit }

-- The sets of pointers are in the order of the addresses; none is an access to a freed group.
def mergeGrouping (allocator : Heap.Allocator) (st : GroupPointers A) (grouping : Finset A) :
    Option (GroupPointers A) :=
  let hits := grouping.biUnion fun address => (st.setmap address).toFinset
  let merged := allocator.new st.memory.live
  let start := { st with memory := st.memory.allocate merged grouping }
  (hits.sort.foldlM (mergeHit merged) start).bind fun st =>
    (st.memory.deref merged).map fun whole =>
      { st with
        uniqueGroupings := insert merged st.uniqueGroupings
        setmap := fun element => if element ∈ whole then some merged else st.setmap element }

def collectGrouping (ret : Finset (Finset A) × Heap.Memory (Finset A)) (uniqueGrouping : Nat) :
    Option (Finset (Finset A) × Heap.Memory (Finset A)) :=
  (ret.2.deref uniqueGrouping).map fun group => (insert group ret.1, ret.2.free uniqueGrouping)

def mergeGroupings (allocator : Heap.Allocator) (groupings : List (Finset A)) :
    Option (Finset (Finset A)) :=
  (groupings.foldlM (mergeGrouping allocator) ⟨⟨∅, fun _ => ∅⟩, ∅, fun _ => none⟩).bind fun st =>
    (st.uniqueGroupings.sort.foldlM collectGrouping (∅, st.memory)).map Prod.fst

end merging

structure GroupingOrder where
  visit : Finset (Finset CTxDestination) → List (Finset CTxDestination)
  visit_toFinset : ∀ groupings, (visit groupings).toFinset = groupings

def getAddressGroupings [ScriptCrypto] (allocator : Heap.Allocator) (order : GroupingOrder)
    (wallet : AddressWallet) : Option (Finset (Finset CTxDestination)) :=
  mergeGroupings allocator (order.visit (allGroupings wallet))

section pointers

variable {A : Type} [DecidableEq A]

omit [DecidableEq A] in
structure GroupPointers.Points (blocks : Finset (Finset A)) (st : GroupPointers A) : Prop where
  live : st.memory.live = st.uniqueGroupings
  image : ∀ block, block ∈ blocks ↔ ∃ pointer ∈ st.uniqueGroupings, st.memory.content pointer = block
  points : ∀ a pointer, st.setmap a = some pointer ↔
    pointer ∈ st.uniqueGroupings ∧ a ∈ st.memory.content pointer

theorem mergeHits_spec (merged : Nat) (hits : List Nat) (st : GroupPointers A)
    (distinct : hits.Nodup) (live : ∀ hit ∈ hits, hit ∈ st.memory.live)
    (mergedLive : merged ∈ st.memory.live) (outside : merged ∉ hits) :
    ∃ st', hits.foldlM (mergeHit merged) st = some st' ∧
      st'.memory.live = st.memory.live \ hits.toFinset ∧
      (∀ pointer, pointer ≠ merged → st'.memory.content pointer = st.memory.content pointer) ∧
      st'.memory.content merged =
        st.memory.content merged ∪ hits.toFinset.biUnion st.memory.content ∧
      st'.uniqueGroupings = st.uniqueGroupings \ hits.toFinset ∧ st'.setmap = st.setmap := by
  induction hits generalizing st with
  | nil => exact ⟨st, rfl, by simp, fun _ _ => rfl, by simp, by simp, rfl⟩
  | cons hit rest ih =>
      obtain ⟨fresh, distinct⟩ := List.nodup_cons.mp distinct
      have hitLive := live hit List.mem_cons_self
      have apart : hit ≠ merged := fun same => outside (same ▸ List.mem_cons_self)
      have merges : mergeHit merged st hit = some
          { st with
            memory := (st.memory.assign merged
              (st.memory.content merged ∪ st.memory.content hit)).free hit
            uniqueGroupings := st.uniqueGroupings.erase hit } := by
        rw [mergeHit, st.memory.deref_live hit hitLive, st.memory.deref_live merged mergedLive]
        rfl
      obtain ⟨st', run, live', content', whole, unique, setmap⟩ := ih
        { st with
          memory := (st.memory.assign merged
            (st.memory.content merged ∪ st.memory.content hit)).free hit
          uniqueGroupings := st.uniqueGroupings.erase hit } distinct
        (fun other mem => Finset.mem_erase.mpr
          ⟨fun same => fresh (same ▸ mem), live other (List.mem_cons_of_mem _ mem)⟩)
        (Finset.mem_erase.mpr ⟨apart.symm, mergedLive⟩)
        (fun mem => outside (List.mem_cons_of_mem _ mem))
      have others (pointer : Nat) (other : pointer ≠ merged) :
          ((st.memory.assign merged
            (st.memory.content merged ∪ st.memory.content hit)).free hit).content pointer =
              st.memory.content pointer :=
        Function.update_of_ne other _ _
      refine ⟨st', ?_, ?_, ?_, ?_, ?_, setmap⟩
      · rw [List.foldlM_cons, merges]
        exact run
      · rw [live', List.toFinset_cons, Finset.sdiff_insert]
        exact Finset.erase_sdiff_comm _ _ hit
      · intro pointer other
        rw [content' pointer other, others pointer other]
      · have taken : rest.toFinset.biUnion ((st.memory.assign merged
            (st.memory.content merged ∪ st.memory.content hit)).free hit).content =
              rest.toFinset.biUnion st.memory.content := by
          refine Finset.biUnion_congr rfl fun pointer mem => others pointer fun same => ?_
          exact outside (same ▸ List.mem_cons_of_mem _ (List.mem_toFinset.mp mem))
        have own : ((st.memory.assign merged
            (st.memory.content merged ∪ st.memory.content hit)).free hit).content merged =
              st.memory.content merged ∪ st.memory.content hit :=
          Function.update_self ..
        rw [whole]
        dsimp only
        rw [taken, own, List.toFinset_cons, Finset.biUnion_insert, Finset.union_assoc]
      · rw [unique, List.toFinset_cons, Finset.sdiff_insert]
        exact Finset.erase_sdiff_comm _ _ hit

theorem GroupPointers.Points.mem_hits {blocks : Finset (Finset A)} {st : GroupPointers A}
    (points : st.Points blocks) (grouping : Finset A) (pointer : Nat) :
    pointer ∈ (grouping.biUnion fun address => (st.setmap address).toFinset) ↔
      pointer ∈ st.uniqueGroupings ∧
        st.memory.content pointer ∈ Components.hits blocks grouping := by
  rw [Finset.mem_biUnion, Components.mem_hits]
  constructor
  · rintro ⟨address, mem, found⟩
    rw [Option.mem_toFinset] at found
    obtain ⟨unique, here⟩ := (points.points address pointer).mp found
    exact ⟨unique, (points.image _).mpr ⟨pointer, unique, rfl⟩, address, here, mem⟩
  · rintro ⟨unique, _, address, here, mem⟩
    exact ⟨address, mem, Option.mem_toFinset.mpr ((points.points address pointer).mpr ⟨unique, here⟩)⟩

theorem mergeGrouping_points (allocator : Heap.Allocator) {blocks : Finset (Finset A)}
    {st : GroupPointers A} (points : st.Points blocks) (separated : Components.Separated blocks)
    (grouping : Finset A) :
    ∃ st', mergeGrouping allocator st grouping = some st' ∧
      st'.Points (Components.merge blocks grouping) := by
  let hits := grouping.biUnion fun address => (st.setmap address).toFinset
  let merged := allocator.new st.memory.live
  have fresh : merged ∉ st.uniqueGroupings := points.live ▸ allocator.fresh st.memory.live
  have hitsUnique (pointer : Nat) (mem : pointer ∈ hits) : pointer ∈ st.uniqueGroupings :=
    ((points.mem_hits grouping pointer).mp mem).1
  have outside : merged ∉ hits := fun mem => fresh (hitsUnique merged mem)
  have kept (pointer : Nat) (other : pointer ≠ merged) :
      (st.memory.allocate merged grouping).content pointer = st.memory.content pointer :=
    Function.update_of_ne other _ _
  obtain ⟨st', run, live, content, whole, unique, setmap⟩ := mergeHits_spec merged hits.sort
    { st with memory := st.memory.allocate merged grouping } (Finset.sort_nodup ..)
    (fun hit mem => Finset.mem_insert_of_mem
      (points.live ▸ hitsUnique hit ((Finset.mem_sort ..).mp mem)))
    (Finset.mem_insert_self ..) (fun mem => outside ((Finset.mem_sort ..).mp mem))
  rw [Finset.sort_toFinset] at live whole unique
  -- The merged group is what the abstract merge puts in the hits' place.
  have block : st'.memory.content merged = Components.merged blocks grouping := by
    have own : (st.memory.allocate merged grouping).content merged = grouping :=
      Function.update_self ..
    have taken : hits.biUnion (st.memory.allocate merged grouping).content =
        hits.biUnion st.memory.content :=
      Finset.biUnion_congr rfl fun pointer mem => kept pointer fun same => outside (same ▸ mem)
    rw [whole]
    dsimp only
    rw [own, taken]
    refine Finset.ext fun a => ?_
    rw [Finset.mem_union, Finset.mem_biUnion, Components.mem_merged]
    refine or_congr_right ⟨?_, ?_⟩
    · rintro ⟨pointer, mem, here⟩
      exact ⟨_, ((points.mem_hits grouping pointer).mp mem).2, here⟩
    · rintro ⟨block, hit, here⟩
      obtain ⟨pointer, member, rfl⟩ :=
        (points.image block).mp ((Components.mem_hits blocks grouping block).mp hit).1
      exact ⟨pointer, (points.mem_hits grouping pointer).mpr ⟨member, hit⟩, here⟩
  have others (pointer : Nat) (mem : pointer ∈ st.uniqueGroupings) :
      st'.memory.content pointer = st.memory.content pointer := by
    have other : pointer ≠ merged := fun same => fresh (same ▸ mem)
    rw [content pointer other]
    exact kept pointer other
  have mergedLive : merged ∈ st'.memory.live := by
    rw [live]
    exact Finset.mem_sdiff.mpr ⟨Finset.mem_insert_self .., outside⟩
  refine ⟨{ st' with
      uniqueGroupings := insert merged st'.uniqueGroupings
      setmap := fun element =>
        if element ∈ st'.memory.content merged then some merged else st'.setmap element },
    ?_, ?_, ?_, ?_⟩
  · show (hits.sort.foldlM (mergeHit merged)
      { st with memory := st.memory.allocate merged grouping }).bind _ = _
    rw [run, Option.bind_some, st'.memory.deref_live merged mergedLive, Option.map_some]
  · show st'.memory.live = insert merged st'.uniqueGroupings
    rw [live, unique]
    show insert merged st.memory.live \ hits = _
    rw [Finset.insert_sdiff_of_notMem _ outside, points.live]
  · intro other
    show other ∈ Components.merge blocks grouping ↔
      ∃ pointer ∈ insert merged st'.uniqueGroupings, st'.memory.content pointer = other
    rw [Components.mem_merge, unique]
    constructor
    · rintro (rfl | ⟨member, missed⟩)
      · exact ⟨merged, Finset.mem_insert_self .., block⟩
      · obtain ⟨pointer, mem, rfl⟩ := (points.image other).mp member
        refine ⟨pointer, Finset.mem_insert_of_mem (Finset.mem_sdiff.mpr ⟨mem, fun hit => ?_⟩),
          others pointer mem⟩
        exact missed ((points.mem_hits grouping pointer).mp hit).2
    · rintro ⟨pointer, mem, rfl⟩
      rcases Finset.mem_insert.mp mem with rfl | mem
      · exact Or.inl block
      · obtain ⟨mem, missed⟩ := Finset.mem_sdiff.mp mem
        rw [others pointer mem]
        refine Or.inr ⟨(points.image _).mpr ⟨pointer, mem, rfl⟩, fun hit => ?_⟩
        exact missed ((points.mem_hits grouping pointer).mpr ⟨mem, hit⟩)
  · intro a pointer
    show (if a ∈ st'.memory.content merged then some merged else st'.setmap a) = some pointer ↔
      pointer ∈ insert merged st'.uniqueGroupings ∧ a ∈ st'.memory.content pointer
    rw [Finset.mem_insert, unique, setmap, Finset.mem_sdiff]
    by_cases inMerged : a ∈ st'.memory.content merged
    · rw [if_pos inMerged]
      constructor
      · intro same
        cases same
        exact ⟨Or.inl rfl, inMerged⟩
      · rintro ⟨rfl | ⟨mem, missed⟩, here⟩
        · rfl
        · rw [others pointer mem] at here
          rw [block] at inMerged
          refine absurd inMerged (separated.apart grouping ((points.image _).mpr ⟨pointer, mem, rfl⟩)
            (fun hit => missed ?_) here)
          exact (points.mem_hits grouping pointer).mpr ⟨mem, hit⟩
    · rw [if_neg inMerged]
      constructor
      · intro found
        obtain ⟨mem, here⟩ := (points.points a pointer).mp found
        refine ⟨Or.inr ⟨mem, fun hit => inMerged ?_⟩, (others pointer mem).symm ▸ here⟩
        rw [block, Components.mem_merged]
        exact Or.inr ⟨_, ((points.mem_hits grouping pointer).mp hit).2, here⟩
      · rintro ⟨rfl | ⟨mem, _⟩, here⟩
        · exact absurd here inMerged
        · rw [others pointer mem] at here
          exact (points.points a pointer).mpr ⟨mem, here⟩

theorem mergeGroupings_points (allocator : Heap.Allocator) {blocks : Finset (Finset A)}
    {st : GroupPointers A} (points : st.Points blocks) (separated : Components.Separated blocks)
    (groupings : List (Finset A)) (nonempty : ∀ grouping ∈ groupings, grouping.Nonempty) :
    ∃ st', groupings.foldlM (mergeGrouping allocator) st = some st' ∧
      st'.Points (groupings.foldl Components.merge blocks) := by
  induction groupings generalizing st blocks with
  | nil => exact ⟨st, rfl, points⟩
  | cons grouping rest ih =>
      obtain ⟨mid, step, pointsMid⟩ := mergeGrouping_points allocator points separated grouping
      obtain ⟨st', run, points'⟩ := ih pointsMid
        (separated.merge grouping (nonempty grouping List.mem_cons_self))
        fun other mem => nonempty other (List.mem_cons_of_mem _ mem)
      refine ⟨st', ?_, points'⟩
      rw [List.foldlM_cons, step]
      exact run

theorem collectGroupings (pointers : List Nat) (ret : Finset (Finset A))
    (memory : Heap.Memory (Finset A)) (distinct : pointers.Nodup)
    (live : ∀ pointer ∈ pointers, pointer ∈ memory.live) :
    (pointers.foldlM collectGrouping (ret, memory)).map Prod.fst =
      some (ret ∪ pointers.toFinset.image memory.content) := by
  induction pointers generalizing ret memory with
  | nil =>
      rw [List.foldlM_nil, List.toFinset_nil, Finset.image_empty, Finset.union_empty]
      rfl
  | cons pointer rest ih =>
      obtain ⟨fresh, distinct⟩ := List.nodup_cons.mp distinct
      have collected : collectGrouping (ret, memory) pointer =
          some (insert (memory.content pointer) ret, memory.free pointer) := by
        rw [collectGrouping, memory.deref_live pointer (live pointer List.mem_cons_self)]
        rfl
      have later := ih (insert (memory.content pointer) ret) (memory.free pointer) distinct
        fun other mem => Finset.mem_erase.mpr
          ⟨fun same => fresh (same ▸ mem), live other (List.mem_cons_of_mem _ mem)⟩
      rw [List.foldlM_cons, collected, List.toFinset_cons, Finset.image_insert, Finset.union_insert,
        ← Finset.insert_union]
      exact later

theorem mergeGroupings_components (allocator : Heap.Allocator) (groupings : List (Finset A))
    (nonempty : ∀ grouping ∈ groupings, grouping.Nonempty) :
    mergeGroupings allocator groupings = some (groupings.foldl Components.merge ∅) := by
  have start : GroupPointers.Points ∅
      (⟨⟨∅, fun _ => ∅⟩, ∅, fun _ => none⟩ : GroupPointers A) := by
    refine ⟨rfl, fun block => ?_, fun a pointer => ?_⟩
    · simp
    · simp
  obtain ⟨st, run, points⟩ := mergeGroupings_points allocator start
    Components.connected_nil.separated groupings nonempty
  rw [mergeGroupings, run, Option.bind_some, collectGroupings _ _ _ (Finset.sort_nodup ..)
    (fun pointer mem => points.live.symm ▸ (Finset.mem_sort ..).mp mem), Finset.sort_toFinset,
    Finset.empty_union]
  refine congrArg some (Finset.ext fun block => ?_)
  rw [Finset.mem_image, points.image]

end pointers

section linked

variable [ScriptCrypto] (wallet : AddressWallet)

/-- A transaction with own inputs groups these and its change; an own output groups its address with
itself. -/
def Grouped (a b : CTxDestination) : Prop :=
  ∃ walletEntry ∈ wallet.mapWallet,
    (inputAddresses wallet walletEntry.2).Nonempty ∧
        a ∈ inputAddresses wallet walletEntry.2 ∪ changeAddresses wallet walletEntry.2 ∧
          b ∈ inputAddresses wallet walletEntry.2 ∪ changeAddresses wallet walletEntry.2 ∨
      a = b ∧ ∃ txout ∈ walletEntry.2.vout, ownAddress wallet txout = some a

theorem mem_txGroupings (tx : CTransaction) (grouping : Finset CTxDestination) :
    grouping ∈ txGroupings wallet tx ↔
      (inputAddresses wallet tx).Nonempty ∧
          grouping = inputAddresses wallet tx ∪ changeAddresses wallet tx ∨
        ∃ txout ∈ tx.vout, ∃ address, ownAddress wallet txout = some address ∧
          grouping = {address} := by
  have inputs : grouping ∈ (if inputGrouping wallet tx = ∅ then [] else
      [inputGrouping wallet tx]) ↔ (inputAddresses wallet tx).Nonempty ∧
        grouping = inputAddresses wallet tx ∪ changeAddresses wallet tx := by
    rw [inputGrouping]
    by_cases mine : inputAddresses wallet tx = ∅
    · simp [mine]
    · have some : (inputAddresses wallet tx).Nonempty := Finset.nonempty_iff_ne_empty.mpr mine
      have whole : inputAddresses wallet tx ∪ changeAddresses wallet tx ≠ ∅ :=
        (some.mono Finset.subset_union_left).ne_empty
      rw [if_pos mine, if_neg whole, List.mem_singleton]
      exact (and_iff_right some).symm
  have lone : grouping ∈ loneGroupings wallet tx ↔ ∃ txout ∈ tx.vout, ∃ address,
      ownAddress wallet txout = some address ∧ grouping = {address} := by
    rw [loneGroupings, List.mem_map]
    constructor
    · rintro ⟨address, mem, rfl⟩
      obtain ⟨txout, txoutMem, own⟩ := List.mem_filterMap.mp mem
      exact ⟨txout, txoutMem, address, own, rfl⟩
    · rintro ⟨txout, txoutMem, address, own, rfl⟩
      exact ⟨address, List.mem_filterMap.mpr ⟨txout, txoutMem, own⟩, rfl⟩
  rw [txGroupings, List.mem_append, inputs, lone]

theorem linked_iff_grouped (order : GroupingOrder) (a b : CTxDestination) :
    Components.Linked (order.visit (allGroupings wallet)) a b ↔ Grouped wallet a b := by
  have visited (grouping : Finset CTxDestination) :
      grouping ∈ order.visit (allGroupings wallet) ↔
        ∃ walletEntry ∈ wallet.mapWallet, grouping ∈ txGroupings wallet walletEntry.2 := by
    rw [← List.mem_toFinset, order.visit_toFinset, allGroupings, List.mem_toFinset,
      List.mem_flatMap]
  constructor
  · rintro ⟨grouping, member, memA, memB⟩
    obtain ⟨walletEntry, entryMem, member⟩ := (visited grouping).mp member
    refine ⟨walletEntry, entryMem, ?_⟩
    rcases (mem_txGroupings wallet _ grouping).mp member with
      ⟨mine, rfl⟩ | ⟨txout, txoutMem, address, own, rfl⟩
    · exact Or.inl ⟨mine, memA, memB⟩
    · rw [Finset.mem_singleton] at memA memB
      exact Or.inr ⟨memA.trans memB.symm, txout, txoutMem, memA ▸ own⟩
  · rintro ⟨walletEntry, entryMem, ⟨mine, memA, memB⟩ | ⟨rfl, txout, txoutMem, own⟩⟩
    · refine ⟨_, (visited _).mpr ⟨walletEntry, entryMem, ?_⟩, memA, memB⟩
      exact (mem_txGroupings wallet _ _).mpr (Or.inl ⟨mine, rfl⟩)
    · refine ⟨{a}, (visited _).mpr ⟨walletEntry, entryMem, ?_⟩, Finset.mem_singleton_self a,
        Finset.mem_singleton_self a⟩
      exact (mem_txGroupings wallet _ _).mpr (Or.inr ⟨txout, txoutMem, a, own, rfl⟩)

/-- The sets that are returned are the connected components, for any allocator and order. -/
theorem getAddressGroupings_connected (allocator : Heap.Allocator) (order : GroupingOrder) :
    ∃ ret, getAddressGroupings allocator order wallet = some ret ∧
      (∀ group ∈ ret, group.Nonempty) ∧
      (∀ group ∈ ret, ∀ other ∈ ret, group ≠ other → Disjoint group other) ∧
      ∀ a b, (∃ group ∈ ret, a ∈ group ∧ b ∈ group) ↔ Relation.TransGen (Grouped wallet) a b := by
  have nonempty (grouping : Finset CTxDestination)
      (member : grouping ∈ order.visit (allGroupings wallet)) : grouping.Nonempty := by
    rw [← List.mem_toFinset, order.visit_toFinset, allGroupings, List.mem_toFinset,
      List.mem_flatMap] at member
    obtain ⟨walletEntry, _, member⟩ := member
    rcases (mem_txGroupings wallet _ grouping).mp member with
      ⟨mine, rfl⟩ | ⟨_, _, address, _, rfl⟩
    · exact mine.mono Finset.subset_union_left
    · exact Finset.singleton_nonempty address
  have connected := Components.components_connected _ nonempty
  have same : Components.Linked (order.visit (allGroupings wallet)) = Grouped wallet :=
    funext fun a => funext fun b => propext (linked_iff_grouped wallet order a b)
  refine ⟨_, mergeGroupings_components allocator _ nonempty, connected.separated.nonempty, ?_, ?_⟩
  · intro group member other otherMember apart
    refine Finset.disjoint_left.mpr fun a mem otherMem => apart ?_
    exact connected.separated.same group member other otherMember a mem otherMem
  · intro a b
    rw [← same]
    exact connected.together a b

end linked

end Wallet

end CryptoYen
