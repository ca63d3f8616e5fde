import CryptoYen.Index.Entry
import CryptoYen.Library.Machine
import CryptoYen.Mempool.Orphans
import CryptoYen.Net.Address

set_option autoImplicit false

namespace CryptoYen

structure QueuedBlock where
  hash : Uint256
  pindex : Option BlockPtr
  nTime : Int
  nValidatedQueuedBefore : Int
  fValidatedHeaders : Bool
  deriving DecidableEq, Repr

-- An iterator of a std::list: the address of its node.
abbrev ListNode := Nat

structure CNodeState where
  address : CService
  fCurrentlyConnected : Bool
  nMisbehavior : Int
  name : String
  fSyncStarted : Bool
  nStallingSince : Int
  vBlocksInFlight : List (ListNode × QueuedBlock)
  nBlocksInFlight : Int
  fPreferredDownload : Bool
  deriving DecidableEq, Repr

namespace CNodeState

def initial : CNodeState := ⟨⟨0, 0⟩, false, 0, "", false, 0, [], 0, false⟩

def dequeue (state : CNodeState) (it : ListNode) : CNodeState :=
  { state with
    vBlocksInFlight := state.vBlocksInFlight.eraseP fun entry => entry.1 == it
    nBlocksInFlight := state.nBlocksInFlight - 1
    nStallingSince := 0 }

def enqueue (state : CNodeState) (it : ListNode) (newentry : QueuedBlock) : CNodeState :=
  { state with
    vBlocksInFlight := state.vBlocksInFlight ++ [(it, newentry)]
    nBlocksInFlight := state.nBlocksInFlight + 1 }

end CNodeState

/-- The globals that the bookkeeping of the download touches; the list nodes are numbered in the
order in which they are allocated. -/
structure DownloadState where
  mapNodeState : AList fun _ : NodeId => CNodeState
  mapBlocksInFlight : AList fun _ : Uint256 => NodeId × ListNode
  nQueuedValidatedHeaders : Int
  nSyncStarted : Int
  nPreferredDownload : Int
  orphans : OrphanPool
  allocated : Nat

namespace DownloadState

def initial : DownloadState := ⟨∅, ∅, 0, 0, 0, .empty, 0⟩

def initializeNode (s : DownloadState) (nodeid : NodeId) (addrName : String) (addr : CService) :
    DownloadState :=
  let state := (s.mapNodeState.lookup nodeid).getD .initial
  { s with
    mapNodeState := s.mapNodeState.insert nodeid { state with name := addrName, address := addr } }

/-- The address is the one that AddressCurrentlyConnected is called for. -/
def finalizeNode [TxHasher] (s : DownloadState) (nodeid : NodeId) :
    Option (DownloadState × Option CService) :=
  (s.mapNodeState.lookup nodeid).map fun state =>
    ({ s with
        nSyncStarted := s.nSyncStarted - state.fSyncStarted.toInt
        mapBlocksInFlight :=
          (state.vBlocksInFlight.map fun entry => entry.2.hash).foldl
            (fun map hash => map.erase hash) s.mapBlocksInFlight
        orphans := s.orphans.eraseOrphansFor nodeid
        nPreferredDownload := s.nPreferredDownload - state.fPreferredDownload.toInt
        mapNodeState := s.mapNodeState.erase nodeid },
      if state.nMisbehavior = 0 ∧ state.fCurrentlyConnected = true then some state.address
      else none)

def markBlockAsReceived (s : DownloadState) (hash : Uint256) : Option DownloadState :=
  match s.mapBlocksInFlight.lookup hash with
  | none => some s
  | some (nodeid, it) => do
      let state ← s.mapNodeState.lookup nodeid
      let queued ← state.vBlocksInFlight.find? fun entry => entry.1 == it
      some
        { s with
          nQueuedValidatedHeaders :=
            s.nQueuedValidatedHeaders - queued.2.fValidatedHeaders.toInt
          mapNodeState := s.mapNodeState.insert nodeid (state.dequeue it)
          mapBlocksInFlight := s.mapBlocksInFlight.erase hash }

def queueBlock (s : DownloadState) (nodeid : NodeId) (state : CNodeState) (newentry : QueuedBlock) :
    DownloadState :=
  { s with
    nQueuedValidatedHeaders := s.nQueuedValidatedHeaders + newentry.fValidatedHeaders.toInt
    mapNodeState := s.mapNodeState.insert nodeid (state.enqueue s.allocated newentry)
    mapBlocksInFlight := s.mapBlocksInFlight.insert newentry.hash (nodeid, s.allocated)
    allocated := s.allocated + 1 }

-- The peer must be known; a block that is in flight from another one is taken from it first.
def markBlockAsInFlight (s : DownloadState) (nodeid : NodeId) (hash : Uint256)
    (pindex : Option BlockPtr) (nTime : Int) : Option DownloadState := do
  let _ ← s.mapNodeState.lookup nodeid
  let received ← s.markBlockAsReceived hash
  let state ← received.mapNodeState.lookup nodeid
  some (received.queueBlock nodeid state
    ⟨hash, pindex, nTime, received.nQueuedValidatedHeaders, pindex.isSome⟩)

end DownloadState

inductive DownloadOp
  | initializeNode (nodeid : NodeId) (addrName : String) (addr : CService)
  | markBlockAsInFlight (nodeid : NodeId) (hash : Uint256) (pindex : Option BlockPtr) (nTime : Int)
  | markBlockAsReceived (hash : Uint256)
  | finalizeNode (nodeid : NodeId)
  deriving DecidableEq, Repr

namespace DownloadState

def step [TxHasher] (s : DownloadState) : DownloadOp → Option DownloadState
  | .initializeNode nodeid addrName addr => some (s.initializeNode nodeid addrName addr)
  | .markBlockAsInFlight nodeid hash pindex nTime => s.markBlockAsInFlight nodeid hash pindex nTime
  | .markBlockAsReceived hash => s.markBlockAsReceived hash
  | .finalizeNode nodeid => (s.finalizeNode nodeid).map Prod.fst

def validated (state : CNodeState) : Nat :=
  state.vBlocksInFlight.countP fun entry => entry.2.fValidatedHeaders

def validatedHeaders (s : DownloadState) : Int :=
  Assoc.sumBy (fun state => (validated state : Int)) s.mapNodeState

def queueOf (mapNodeState : AList fun _ : NodeId => CNodeState) (nodeid : NodeId) :
    List (ListNode × QueuedBlock) :=
  ((mapNodeState.lookup nodeid).map CNodeState.vBlocksInFlight).getD []

structure Linked (s : DownloadState) : Prop where
  queued : ∀ nodeid, ∀ entry ∈ queueOf s.mapNodeState nodeid,
    s.mapBlocksInFlight.lookup entry.2.hash = some (nodeid, entry.1)
  inFlight : ∀ hash nodeid it, s.mapBlocksInFlight.lookup hash = some (nodeid, it) →
    ∃ queued, (it, queued) ∈ queueOf s.mapNodeState nodeid ∧ queued.hash = hash
  nodes : ∀ nodeid, ((queueOf s.mapNodeState nodeid).map Prod.fst).Nodup
  counted : ∀ nodeid state, s.mapNodeState.lookup nodeid = some state →
    state.nBlocksInFlight = state.vBlocksInFlight.length
  fresh : ∀ nodeid, ∀ entry ∈ queueOf s.mapNodeState nodeid, entry.1 < s.allocated

-- How far nQueuedValidatedHeaders is above the blocks that it counts.
def excess (s : DownloadState) : Int := s.nQueuedValidatedHeaders - s.validatedHeaders

def lost (s : DownloadState) : DownloadOp → Nat
  | .finalizeNode nodeid => ((s.mapNodeState.lookup nodeid).map validated).getD 0
  | _ => 0

theorem erase_node (entries : List (ListNode × QueuedBlock)) (it : ListNode) (queued : QueuedBlock)
    (distinct : (entries.map Prod.fst).Nodup) (member : (it, queued) ∈ entries) :
    (entries.find? fun entry => entry.1 == it) = some (it, queued) ∧
      entries.Perm ((it, queued) :: entries.eraseP fun entry => entry.1 == it) := by
  induction entries with
  | nil => cases member
  | cons entry rest ih =>
      rw [List.map_cons, List.nodup_cons] at distinct
      by_cases here : entry.1 = it
      next =>
        have alone : entry = (it, queued) := by
          cases List.mem_cons.mp member with
          | inl same => exact same.symm
          | inr later => exact absurd (List.mem_map_of_mem later) (here ▸ distinct.1)
        subst alone
        simp
      next =>
        have later : (it, queued) ∈ rest := by
          cases List.mem_cons.mp member with
          | inl same => exact absurd (congrArg Prod.fst same).symm here
          | inr later => exact later
        have ⟨found, perm⟩ := ih distinct.2 later
        refine ⟨by simp [here, found], ?_⟩
        rw [List.eraseP_cons_of_neg (by simpa using here)]
        exact (perm.cons entry).trans (List.Perm.swap _ _ _)

variable {s : DownloadState}

theorem queueOf_some {nodeid : NodeId} {state : CNodeState}
    (known : s.mapNodeState.lookup nodeid = some state) :
    queueOf s.mapNodeState nodeid = state.vBlocksInFlight := by
  simp [queueOf, known]

theorem queueOf_insert (mapNodeState : AList fun _ : NodeId => CNodeState) (nodeid other : NodeId)
    (state : CNodeState) :
    queueOf (mapNodeState.insert nodeid state) other =
      if other = nodeid then state.vBlocksInFlight else queueOf mapNodeState other := by
  simp only [queueOf, Assoc.lookup_insert]
  split
  next => rfl
  next => rfl

theorem initial_linked : initial.Linked where
  queued := fun _ _ member => by cases member
  inFlight := fun _ _ _ known => by cases known
  nodes := fun _ => List.nodup_nil
  counted := fun _ _ known => by cases known
  fresh := fun _ _ member => by cases member

theorem counted_insert (linked : s.Linked) (nodeid : NodeId) (state : CNodeState)
    (count : state.nBlocksInFlight = state.vBlocksInFlight.length) :
    ∀ other known, (s.mapNodeState.insert nodeid state).lookup other = some known →
      known.nBlocksInFlight = known.vBlocksInFlight.length := by
  intro other known present
  rw [Assoc.lookup_insert] at present
  split at present
  next =>
    cases present
    exact count
  next => exact linked.counted other known present

theorem validatedHeaders_replace (mapNodeState : AList fun _ : NodeId => CNodeState)
    (nodeid : NodeId) (old state : CNodeState) (known : mapNodeState.lookup nodeid = some old) :
    (validated old : Int) +
        Assoc.sumBy (fun state => (validated state : Int)) (mapNodeState.insert nodeid state) =
      validated state + Assoc.sumBy (fun state => (validated state : Int)) mapNodeState :=
  Assoc.sumBy_replace (fun state => (validated state : Int)) mapNodeState nodeid old state known

theorem initializeNode_spec (linked : s.Linked) (nodeid : NodeId) (addrName : String)
    (addr : CService) :
    (s.initializeNode nodeid addrName addr).Linked ∧
      (s.initializeNode nodeid addrName addr).excess = s.excess := by
  have same : ∀ other, queueOf (s.initializeNode nodeid addrName addr).mapNodeState other =
      queueOf s.mapNodeState other := by
    intro other
    rw [initializeNode, queueOf_insert]
    split
    next here =>
      subst here
      cases known : s.mapNodeState.lookup other with
      | none => simp [queueOf, known, CNodeState.initial]
      | some state => simp [queueOf, known]
    next => rfl
  constructor
  next =>
    constructor
    case counted =>
      refine counted_insert linked nodeid _ ?_
      cases known : s.mapNodeState.lookup nodeid with
      | none => rfl
      | some state => exact linked.counted nodeid state known
    all_goals simp only [same]
    case queued => exact linked.queued
    case inFlight => exact linked.inFlight
    case nodes => exact linked.nodes
    case fresh => exact linked.fresh
  next =>
    simp only [excess, validatedHeaders, initializeNode]
    cases known : s.mapNodeState.lookup nodeid with
    | none =>
        rw [Assoc.sumBy_insert _ _ _ _ known]
        simp [validated, CNodeState.initial]
    | some state =>
        have replaced := validatedHeaders_replace s.mapNodeState nodeid state
          { state with name := addrName, address := addr } known
        simp only [Option.getD_some]
        simp only [validated] at replaced ⊢
        omega

theorem markBlockAsReceived_some (linked : s.Linked) {hash : Uint256} {nodeid : NodeId}
    {it : ListNode} (flying : s.mapBlocksInFlight.lookup hash = some (nodeid, it)) :
    ∃ state queued, s.mapNodeState.lookup nodeid = some state ∧ queued.hash = hash ∧
      state.vBlocksInFlight.Perm ((it, queued) :: (state.dequeue it).vBlocksInFlight) ∧
      s.markBlockAsReceived hash = some
        { s with
          nQueuedValidatedHeaders := s.nQueuedValidatedHeaders - queued.fValidatedHeaders.toInt
          mapNodeState := s.mapNodeState.insert nodeid (state.dequeue it)
          mapBlocksInFlight := s.mapBlocksInFlight.erase hash } := by
  obtain ⟨queued, member, same⟩ := linked.inFlight hash nodeid it flying
  cases known : s.mapNodeState.lookup nodeid with
  | none => simp [queueOf, known] at member
  | some state =>
      have distinct := linked.nodes nodeid
      rw [queueOf_some known] at member distinct
      have ⟨found, perm⟩ := erase_node state.vBlocksInFlight it queued distinct member
      exact ⟨state, queued, rfl, same, perm, by simp [markBlockAsReceived, flying, known, found]⟩

theorem validated_dequeue {state : CNodeState} {it : ListNode} {queued : QueuedBlock}
    (perm : state.vBlocksInFlight.Perm ((it, queued) :: (state.dequeue it).vBlocksInFlight)) :
    (validated state : Int) = validated (state.dequeue it) + queued.fValidatedHeaders.toInt := by
  rw [validated, perm.countP_eq, List.countP_cons, validated]
  cases queued.fValidatedHeaders <;> rfl

theorem validated_enqueue (state : CNodeState) (it : ListNode) (newentry : QueuedBlock) :
    (validated (state.enqueue it newentry) : Int) =
      validated state + newentry.fValidatedHeaders.toInt := by
  rw [validated, CNodeState.enqueue, List.countP_append, List.countP_singleton, validated]
  cases newentry.fValidatedHeaders <;> rfl

theorem mem_received (linked : s.Linked) {hash : Uint256} {nodeid : NodeId} {it : ListNode}
    {state : CNodeState} {queued : QueuedBlock} {rest : List (ListNode × QueuedBlock)}
    (flying : s.mapBlocksInFlight.lookup hash = some (nodeid, it)) (same : queued.hash = hash)
    (known : s.mapNodeState.lookup nodeid = some state)
    (perm : state.vBlocksInFlight.Perm ((it, queued) :: rest)) (other : NodeId)
    (entry : ListNode × QueuedBlock) :
    entry ∈ (if other = nodeid then rest else queueOf s.mapNodeState other) ↔
      entry ∈ queueOf s.mapNodeState other ∧ entry.2.hash ≠ hash := by
  have queue := queueOf_some known
  constructor
  next =>
    intro member
    split at member
    next here =>
      subst here
      have inside : entry ∈ queueOf s.mapNodeState other := by
        rw [queue]
        exact perm.mem_iff.mpr (List.mem_cons_of_mem _ member)
      refine ⟨inside, fun again => ?_⟩
      have twice := linked.queued other entry inside
      rw [again, flying] at twice
      cases twice
      have distinct := linked.nodes other
      rw [queue, (perm.map Prod.fst).nodup_iff, List.map_cons, List.nodup_cons] at distinct
      exact distinct.1 (List.mem_map.mpr ⟨entry, member, rfl⟩)
    next elsewhere =>
      refine ⟨member, fun again => ?_⟩
      have twice := linked.queued other entry member
      rw [again, flying] at twice
      cases twice
      exact elsewhere rfl
  next =>
    intro ⟨inside, differs⟩
    split
    next here =>
      subst here
      rw [queue] at inside
      cases List.mem_cons.mp (perm.mem_iff.mp inside) with
      | inl taken =>
          rw [taken] at differs
          exact absurd same differs
      | inr left => exact left
    next => exact inside

theorem markBlockAsReceived_spec (linked : s.Linked) (hash : Uint256) :
    ∃ next, s.markBlockAsReceived hash = some next ∧ next.Linked ∧ next.excess = s.excess ∧
      next.mapBlocksInFlight.lookup hash = none ∧
      ∀ nodeid, (next.mapNodeState.lookup nodeid).isSome = (s.mapNodeState.lookup nodeid).isSome := by
  cases flying : s.mapBlocksInFlight.lookup hash with
  | none =>
      refine ⟨s, by simp [markBlockAsReceived, flying], linked, rfl, flying, fun _ => rfl⟩
  | some target =>
      obtain ⟨nodeid, it⟩ := target
      obtain ⟨state, queued, known, same, perm, received⟩ := markBlockAsReceived_some linked flying
      have left := mem_received linked flying same known perm
      refine ⟨_, received, ?_, ?_, AList.lookup_erase _ _, ?_⟩
      next =>
        have queues := fun other => queueOf_insert s.mapNodeState nodeid other (state.dequeue it)
        constructor
        case counted =>
          refine counted_insert linked nodeid _ ?_
          have before := linked.counted nodeid state known
          have shorter := perm.length_eq
          simp only [List.length_cons, CNodeState.dequeue] at shorter ⊢
          omega
        all_goals simp only [queues]
        case queued =>
          intro other entry member
          have ⟨inside, differs⟩ := (left other entry).mp member
          rw [AList.lookup_erase_ne differs]
          exact linked.queued other entry inside
        case inFlight =>
          intro other peer node found
          rw [Assoc.lookup_erase] at found
          split at found
          next => cases found
          next differs =>
            obtain ⟨block, inside, hashed⟩ := linked.inFlight other peer node found
            exact ⟨block, (left peer (node, block)).mpr ⟨inside, hashed ▸ differs⟩, hashed⟩
        case nodes =>
          intro other
          split
          next here =>
            have distinct := linked.nodes nodeid
            rw [queueOf_some known] at distinct
            exact distinct.sublist (List.eraseP_sublist.map Prod.fst)
          next => exact linked.nodes other
        case fresh =>
          intro other entry member
          exact linked.fresh other entry ((left other entry).mp member).1
      next =>
        have replaced := validatedHeaders_replace s.mapNodeState nodeid state (state.dequeue it) known
        have fewer := validated_dequeue perm
        simp only [excess, validatedHeaders]
        omega
      next =>
        intro other
        rw [Assoc.lookup_insert]
        split
        next here =>
          rw [here, known]
          rfl
        next => rfl

theorem queueBlock_spec (linked : s.Linked) (nodeid : NodeId) (state : CNodeState)
    (newentry : QueuedBlock) (known : s.mapNodeState.lookup nodeid = some state)
    (idle : s.mapBlocksInFlight.lookup newentry.hash = none) :
    (s.queueBlock nodeid state newentry).Linked ∧
      (s.queueBlock nodeid state newentry).excess = s.excess := by
  have queue := queueOf_some known
  have elsewhere : ∀ other, ∀ entry ∈ queueOf s.mapNodeState other,
      entry.2.hash ≠ newentry.hash := by
    intro other entry member again
    have flying := linked.queued other entry member
    rw [again, idle] at flying
    cases flying
  have queues := fun other =>
    queueOf_insert s.mapNodeState nodeid other (state.enqueue s.allocated newentry)
  have mem : ∀ other entry, entry ∈ queueOf
      (s.mapNodeState.insert nodeid (state.enqueue s.allocated newentry)) other ↔
      entry ∈ queueOf s.mapNodeState other ∨ (other = nodeid ∧ entry = (s.allocated, newentry)) := by
    intro other entry
    rw [queues]
    split
    next here =>
      subst here
      simp [CNodeState.enqueue, queue]
    next differs => simp [differs]
  constructor
  next =>
    constructor
    case queued =>
      intro other entry member
      rw [queueBlock] at member ⊢
      cases (mem other entry).mp member with
      | inl before =>
          simp only
          rw [AList.lookup_insert_ne (elsewhere other entry before)]
          exact linked.queued other entry before
      | inr new =>
          rw [new.1, new.2]
          exact AList.lookup_insert _
    case inFlight =>
      intro other peer it found
      rw [queueBlock] at found ⊢
      simp only [Assoc.lookup_insert] at found
      split at found
      next same =>
        cases found
        exact ⟨newentry, (mem nodeid _).mpr (.inr ⟨rfl, rfl⟩), same.symm⟩
      next =>
        obtain ⟨block, inside, hashed⟩ := linked.inFlight other peer it found
        exact ⟨block, (mem peer _).mpr (.inl inside), hashed⟩
    case nodes =>
      intro other
      have before := linked.nodes other
      simp only [queueBlock, queues]
      split
      next here =>
        subst here
        rw [queue] at before
        have unused : s.allocated ∉ state.vBlocksInFlight.map Prod.fst := by
          intro listed
          obtain ⟨entry, member, same⟩ := List.mem_map.mp listed
          have below := linked.fresh other entry (queue ▸ member)
          rw [same] at below
          exact Nat.lt_irrefl _ below
        rw [CNodeState.enqueue, List.map_append, List.nodup_append]
        refine ⟨before, by simp, fun it listed new single same => ?_⟩
        have last : new = s.allocated := List.mem_singleton.mp single
        exact unused (last ▸ same ▸ listed)
      next => exact before
    case counted =>
      refine counted_insert linked nodeid _ ?_
      have before := linked.counted nodeid state known
      simp only [CNodeState.enqueue, List.length_append, List.length_singleton]
      omega
    case fresh =>
      intro other entry member
      rw [queueBlock] at member ⊢
      cases (mem other entry).mp member with
      | inl before => exact Nat.lt_succ_of_lt (linked.fresh other entry before)
      | inr new =>
          rw [new.2]
          exact Nat.lt_succ_self _
  next =>
    have replaced := validatedHeaders_replace s.mapNodeState nodeid state
      (state.enqueue s.allocated newentry) known
    have more := validated_enqueue state s.allocated newentry
    simp only [excess, validatedHeaders, queueBlock]
    omega

theorem queueOf_erase (mapNodeState : AList fun _ : NodeId => CNodeState) (nodeid other : NodeId) :
    queueOf (mapNodeState.erase nodeid) other =
      if other = nodeid then [] else queueOf mapNodeState other := by
  simp only [queueOf, Assoc.lookup_erase]
  split
  next => rfl
  next => rfl

-- The peer's blocks are in flight no more, but they are still counted.
theorem finalizeNode_spec [TxHasher] (linked : s.Linked) (nodeid : NodeId) (next : DownloadState)
    (finalized : (s.finalizeNode nodeid).map Prod.fst = some next) :
    next.Linked ∧ next.excess = s.excess + s.lost (.finalizeNode nodeid) := by
  cases known : s.mapNodeState.lookup nodeid with
  | none => simp [finalizeNode, known] at finalized
  | some state =>
      simp only [finalizeNode, known, Option.map_some, Option.some.injEq] at finalized
      subst finalized
      have queue := queueOf_some known
      have queues := queueOf_erase s.mapNodeState nodeid
      constructor
      next =>
        constructor
        all_goals simp only [queues, Assoc.lookup_eraseAll]
        case queued =>
          intro other entry member
          split at member
          next => cases member
          next differs =>
            have flying := linked.queued other entry member
            rw [if_neg, flying]
            intro own
            obtain ⟨mine, inside, same⟩ := List.mem_map.mp own
            have twice := linked.queued nodeid mine (queue ▸ inside)
            rw [same, flying] at twice
            exact differs (congrArg Prod.fst (Option.some.inj twice))
        case inFlight =>
          intro hash peer it found
          split at found
          next => cases found
          next foreign =>
            obtain ⟨queued, inside, hashed⟩ := linked.inFlight hash peer it found
            refine ⟨queued, ?_, hashed⟩
            rw [if_neg]
            · exact inside
            intro same
            subst same
            rw [queue] at inside
            exact foreign (List.mem_map.mpr ⟨(it, queued), inside, hashed⟩)
        case nodes =>
          intro other
          split
          next => exact List.nodup_nil
          next => exact linked.nodes other
        case counted =>
          intro other kept present
          rw [Assoc.lookup_erase] at present
          split at present
          next => cases present
          next => exact linked.counted other kept present
        case fresh =>
          intro other entry member
          split at member
          next => cases member
          next => exact linked.fresh other entry member
      next =>
        have dropped := Assoc.sumBy_erase (fun state => (validated state : Int)) s.mapNodeState
          nodeid state known
        simp only [excess, validatedHeaders, lost, known, Option.map_some, Option.getD_some]
        omega

theorem step_spec [TxHasher] (linked : s.Linked) (op : DownloadOp) (next : DownloadState)
    (stepped : s.step op = some next) : next.Linked ∧ next.excess = s.excess + s.lost op := by
  cases op with
  | initializeNode nodeid addrName addr =>
      cases stepped
      simpa [lost] using initializeNode_spec linked nodeid addrName addr
  | markBlockAsInFlight nodeid hash pindex nTime =>
      obtain ⟨received, taken, linked', same, idle, _⟩ := markBlockAsReceived_spec linked hash
      simp only [step, markBlockAsInFlight, taken, Option.bind_eq_bind, Option.bind_some,
        Option.bind_eq_some_iff, Option.some.injEq] at stepped
      obtain ⟨_, _, state, known, queued⟩ := stepped
      subst queued
      have ⟨here, counted⟩ := queueBlock_spec linked' nodeid state
        ⟨hash, pindex, nTime, received.nQueuedValidatedHeaders, pindex.isSome⟩ known idle
      exact ⟨here, by simpa [lost] using counted.trans same⟩
  | markBlockAsReceived hash =>
      obtain ⟨received, taken, linked', same, _⟩ := markBlockAsReceived_spec linked hash
      rw [step, taken] at stepped
      cases stepped
      exact ⟨linked', by simpa [lost] using same⟩
  | finalizeNode nodeid => exact finalizeNode_spec linked nodeid next stepped

/-- The map has one entry for each queued block and no other, and both counts are right. -/
structure Consistent (s : DownloadState) : Prop where
  inFlight : ∀ hash nodeid it, s.mapBlocksInFlight.lookup hash = some (nodeid, it) ↔
    ∃ state queued, s.mapNodeState.lookup nodeid = some state ∧
      (it, queued) ∈ state.vBlocksInFlight ∧ queued.hash = hash
  once : ∀ nodeid state, s.mapNodeState.lookup nodeid = some state →
    (state.vBlocksInFlight.map fun entry => entry.2.hash).Nodup
  counted : ∀ nodeid state, s.mapNodeState.lookup nodeid = some state →
    state.nBlocksInFlight = state.vBlocksInFlight.length
  validated : s.nQueuedValidatedHeaders = s.validatedHeaders

theorem Linked.consistent_iff (linked : s.Linked) : s.Consistent ↔ s.excess = 0 := by
  constructor
  next =>
    intro consistent
    have counted := consistent.validated
    rw [excess]
    omega
  next =>
    intro exact
    constructor
    case inFlight =>
      intro hash nodeid it
      constructor
      next =>
        intro flying
        obtain ⟨queued, member, same⟩ := linked.inFlight hash nodeid it flying
        cases known : s.mapNodeState.lookup nodeid with
        | none => simp [queueOf, known] at member
        | some state => exact ⟨state, queued, rfl, queueOf_some known ▸ member, same⟩
      next =>
        intro ⟨state, queued, known, member, same⟩
        have flying := linked.queued nodeid (it, queued) (queueOf_some known ▸ member)
        rwa [same] at flying
    case once =>
      intro nodeid state known
      have distinct := linked.nodes nodeid
      rw [queueOf_some known] at distinct
      refine List.Nodup.map_on (fun entry here other there same => ?_) distinct.of_map
      have first := linked.queued nodeid entry (queueOf_some known ▸ here)
      have second := linked.queued nodeid other (queueOf_some known ▸ there)
      rw [same, second] at first
      have node : other.1 = entry.1 := congrArg Prod.snd (Option.some.inj first)
      exact List.inj_on_of_nodup_map distinct here there node.symm
    case counted => exact linked.counted
    case validated =>
      rw [excess] at exact
      omega

def FinalizesUncounted (s : DownloadState) (op : DownloadOp) : Prop :=
  ∀ nodeid state entry, op = .finalizeNode nodeid → s.mapNodeState.lookup nodeid = some state →
    entry ∈ state.vBlocksInFlight → entry.2.fValidatedHeaders = false

theorem lost_eq_zero_iff (s : DownloadState) (op : DownloadOp) :
    s.lost op = 0 ↔ s.FinalizesUncounted op := by
  cases op with
  | finalizeNode nodeid =>
      simp only [lost, FinalizesUncounted, DownloadOp.finalizeNode.injEq]
      cases known : s.mapNodeState.lookup nodeid with
      | none =>
          refine ⟨fun _ peer state entry same present => ?_, fun _ => rfl⟩
          rw [← same, known] at present
          cases present
      | some state =>
          simp only [Option.map_some, Option.getD_some, validated, List.countP_eq_zero,
            Bool.not_eq_true]
          constructor
          next =>
            intro none peer other entry same present member
            rw [← same, known] at present
            cases present
            exact none entry member
          next => exact fun idle entry member => idle nodeid state entry rfl known member
  | initializeNode | markBlockAsInFlight | markBlockAsReceived => simp [lost, FinalizesUncounted]

instance (s : DownloadState) (op : DownloadOp) : Decidable (s.FinalizesUncounted op) :=
  decidable_of_iff _ (lost_eq_zero_iff s op)

theorem run_consistent_iff [TxHasher] (ops : List DownloadOp) (final : DownloadState)
    (ran : Machine.run step initial ops = some final) :
    final.Consistent ↔ Machine.Along FinalizesUncounted step initial ops := by
  have linked := Machine.run_invariant step (fun _ _ => True) Linked
    (fun _ op next linked _ stepped => (step_spec linked op next stepped).1)
    initial final ops initial_linked (Machine.along_true _ _ _) ran
  have counts := Machine.run_excess_iff step Linked excess lost
    (fun _ op next linked stepped => (step_spec linked op next stepped).1)
    (fun _ op next linked stepped => (step_spec linked op next stepped).2)
    initial final ops initial_linked ran
  have none : initial.excess = 0 := rfl
  rw [linked.consistent_iff, ← none, counts.2]
  simp only [lost_eq_zero_iff]

end DownloadState

namespace DroppedPeer

def block : Uint256 := 5

@[reducible] def hasher : TxHasher := ⟨fun _ => 0⟩

def arrives : List DownloadOp :=
  [.initializeNode 1 "peer" ⟨0, 0⟩, .markBlockAsInFlight 1 block (some 0) 10]

end DroppedPeer

open DroppedPeer in
theorem received_consistent :
    ∃ final, Machine.run (@DownloadState.step hasher) .initial
        (arrives ++ [.markBlockAsReceived block, .finalizeNode 1]) = some final ∧
      final.Consistent := by
  have runs : (Machine.run (@DownloadState.step hasher) .initial
      (arrives ++ [.markBlockAsReceived block, .finalizeNode 1])).isSome = true := by
    decide +kernel
  obtain ⟨final, ran⟩ := Option.isSome_iff_exists.mp runs
  exact ⟨final, ran, (@DownloadState.run_consistent_iff hasher _ final ran).mpr (by decide +kernel)⟩

open DroppedPeer in
theorem dropped_peer_counted :
    ∃ final, Machine.run (@DownloadState.step hasher) .initial (arrives ++ [.finalizeNode 1]) =
        some final ∧ ¬ final.Consistent := by
  have counts : (Machine.run (@DownloadState.step hasher) .initial
      (arrives ++ [.finalizeNode 1])).map
        (fun final => (final.nQueuedValidatedHeaders, final.validatedHeaders)) = some (1, 0) := by
    decide +kernel
  obtain ⟨final, ran, same⟩ := Option.map_eq_some_iff.mp counts
  refine ⟨final, ran, fun consistent => ?_⟩
  have equal := consistent.validated
  obtain ⟨one, zero⟩ := Prod.mk.inj same
  rw [one, zero] at equal
  cases equal

end CryptoYen
