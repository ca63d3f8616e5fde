import CryptoYen.Masternodes.WinnerMessages

set_option autoImplicit false

namespace CryptoYen

abbrev VotePair := COutPoint × Nat

structure VoteCall where
  outMasternode : COutPoint
  nBlockHeight : Int
  mnlevel : Nat
  deriving DecidableEq, Repr

def VoteCall.pair (call : VoteCall) : VotePair := (call.outMasternode, call.mnlevel)

def VotePair.key (pair : VotePair) : Uint256 := WinnerNode.voteKey pair.1 pair.2

namespace WinnerNode

def vote (node : WinnerNode) (call : VoteCall) : WinnerNode × Bool :=
  node.canVote call.outMasternode call.nBlockHeight call.mnlevel

def answers : WinnerNode → List VoteCall → List (VoteCall × Bool)
  | _, [] => []
  | node, call :: rest => (call, (node.vote call).2) :: answers (node.vote call).1 rest

def answersFor (node : WinnerNode) (pair : VotePair) (calls : List VoteCall) :
    List (VoteCall × Bool) :=
  (node.answers calls).filter fun answer => answer.1.pair = pair

/-- From the start of the node on, no call for the first pair changes an answer to the second. -/
def Undisturbed (pair other : VotePair) : Prop :=
  ∀ payments calls,
    (WinnerNode.mk payments ∅).answersFor other calls =
      (WinnerNode.mk payments ∅).answersFor other (calls.filter fun call => call.pair ≠ pair)

def votes (node : WinnerNode) (pair : VotePair) (heights : List Int) : WinnerNode :=
  heights.foldl (fun node height => (node.canVote pair.1 height pair.2).1) node

def accepted (pair : VotePair) : WinnerNode → List Int → List Int
  | _, [] => []
  | node, height :: rest =>
      let (next, allowed) := node.canVote pair.1 height pair.2
      if allowed then height :: accepted pair next rest else accepted pair next rest

/-- In every call sequence of the pair a new highest height is let through, and none twice. -/
def VotesOnceAnHeight (node : WinnerNode) (pair : VotePair) (heights : List Int) : Prop :=
  ∀ before height after, heights = before ++ height :: after →
    ((∀ voted ∈ accepted pair node before, voted < height) →
        ((node.votes pair before).canVote pair.1 height pair.2).2 = true) ∧
      (height ∈ accepted pair node before →
        ((node.votes pair before).canVote pair.1 height pair.2).2 = false)

variable {node : WinnerNode} {pair : VotePair} {bound : Int}

theorem Voted.votes (voted : node.Voted (voteKey pair.1 pair.2) bound) (heights : List Int) :
    (node.votes pair heights).Voted (voteKey pair.1 pair.2) bound := by
  induction heights generalizing node with
  | nil => exact voted
  | cons height rest ih => exact ih (voted.canVote pair.1 height pair.2)

theorem Voted.mono {height : Int} (voted : node.Voted (voteKey pair.1 pair.2) bound)
    (above : bound ≤ height) : node.Voted (voteKey pair.1 pair.2) height := by
  obtain ⟨last, known, low⟩ := voted
  exact ⟨last, known, low.trans above⟩

theorem Voted.refused (voted : node.Voted (voteKey pair.1 pair.2) bound) :
    (node.canVote pair.1 bound pair.2).2 = false := by
  obtain ⟨last, known, low⟩ := voted
  by_contra allowed
  have lower := (node.canVote_allowed _ _ _).mp (by simpa using allowed) last known
  omega

theorem voted_of_allowed (allowed : (node.canVote pair.1 bound pair.2).2 = true) :
    (node.canVote pair.1 bound pair.2).1.Voted (voteKey pair.1 pair.2) bound := by
  rw [node.canVote_recorded _ _ _ allowed]
  exact ⟨bound, by simp, le_rfl⟩

theorem voted_of_accepted (heights : List Int) (member : bound ∈ accepted pair node heights) :
    (node.votes pair heights).Voted (voteKey pair.1 pair.2) bound := by
  induction heights generalizing node with
  | nil => cases member
  | cons height rest ih =>
      simp only [accepted] at member
      cases allowed : (node.canVote pair.1 height pair.2).2 with
      | false =>
          simp only [allowed, Bool.false_eq_true, if_false] at member
          exact ih member
      | true =>
          simp only [allowed, if_true, List.mem_cons] at member
          cases member with
          | inl same =>
              subst same
              exact (voted_of_allowed allowed).votes rest
          | inr later => exact ih later

theorem accepted_below (voted : node.Voted (voteKey pair.1 pair.2) bound) (heights : List Int) :
    ∀ height ∈ accepted pair node heights, height < bound := by
  induction heights generalizing node with
  | nil => intro height member; cases member
  | cons head rest ih =>
      intro height member
      have later := ih (voted.canVote pair.1 head pair.2) height
      simp only [accepted] at member
      cases allowed : (node.canVote pair.1 head pair.2).2 with
      | false =>
          simp only [allowed, Bool.false_eq_true, if_false] at member
          exact later member
      | true =>
          simp only [allowed, if_true, List.mem_cons] at member
          cases member with
          | inr below => exact later below
          | inl same =>
              subst same
              by_contra above
              have refused := (voted.mono (not_lt.mp above)).refused
              rw [allowed] at refused
              cases refused

theorem allowed_of_fresh (height : Int)
    (fresh : node.mapMasternodesLastVote.lookup (voteKey pair.1 pair.2) = none) :
    (node.canVote pair.1 height pair.2).2 = true := by
  rw [canVote_allowed, fresh]
  intro last known
  cases known

theorem votesOnceAnHeight_iff (heights : List Int)
    (fresh : node.mapMasternodesLastVote.lookup (voteKey pair.1 pair.2) = none) :
    node.VotesOnceAnHeight pair heights ↔
      ∀ first rest, heights = first :: rest → ∀ height ∈ rest, height ≤ first := by
  constructor
  next =>
    intro claimed first rest split height member
    by_contra above
    subst split
    obtain ⟨middle, after, divided⟩ := List.append_of_mem member
    have allowed := allowed_of_fresh first fresh
    have recorded := voted_of_allowed allowed
    have highest : ∀ voted ∈ accepted pair node (first :: middle), voted < height := by
      intro voted earlier
      simp only [accepted, allowed, if_true, List.mem_cons] at earlier
      cases earlier with
      | inl same => omega
      | inr later =>
          have below := accepted_below recorded middle voted later
          omega
    have through := (claimed (first :: middle) height after (by simp [divided])).1 highest
    have refused := ((recorded.votes middle).mono (not_le.mp above).le).refused
    rw [votes, List.foldl_cons] at through
    rw [votes, through] at refused
    cases refused
  next =>
    intro lower before height after split
    refine ⟨fun highest => ?_, fun repeated => (voted_of_accepted before repeated).refused⟩
    cases before with
    | nil => exact allowed_of_fresh height fresh
    | cons first middle =>
        have below := lower first (middle ++ height :: after) (by simpa using split) height (by simp)
        have above := highest first (by simp [accepted, allowed_of_fresh first fresh])
        omega

end WinnerNode

namespace RisingVotes

def node : WinnerNode := ⟨.empty, ∅⟩

def pair : VotePair := (⟨7, 0⟩, 1)

end RisingVotes

open RisingVotes in
theorem votesOnceAnHeight_falling : node.VotesOnceAnHeight pair [12, 11, 11, 12] :=
  (WinnerNode.votesOnceAnHeight_iff [12, 11, 11, 12] (AList.lookup_empty _)).mpr (by
    intro first rest split
    cases split
    decide)

open RisingVotes in
theorem risingVote_refused : ¬ node.VotesOnceAnHeight pair [10, 11] := by
  intro claimed
  have through := (claimed [10] 11 [] rfl).1 (by decide +kernel)
  exact absurd through (by decide +kernel)

namespace WinnerNode

variable {node : WinnerNode}

def AgreeOff (key : Uint256) (node node' : WinnerNode) : Prop :=
  ∀ other, other ≠ key →
    node.mapMasternodesLastVote.lookup other = node'.mapMasternodesLastVote.lookup other

variable {key : Uint256} {node' : WinnerNode} {call : VoteCall}

theorem vote_frame (node : WinnerNode) (call : VoteCall) :
    AgreeOff call.pair.key (node.vote call).1 node := by
  intro other differs
  cases allowed : (node.vote call).2 with
  | false => rw [vote, node.canVote_refused _ _ _ allowed]
  | true =>
      rw [vote, node.canVote_recorded _ _ _ allowed]
      exact AList.lookup_insert_ne differs

theorem AgreeOff.answer (agree : AgreeOff key node node') (differs : call.pair.key ≠ key) :
    (node.vote call).2 = (node'.vote call).2 := by
  have known := agree call.pair.key differs
  simp only [VotePair.key, VoteCall.pair] at known
  rw [Bool.eq_iff_iff, vote, vote, canVote_allowed, canVote_allowed, known]

theorem AgreeOff.vote (agree : AgreeOff key node node') (call : VoteCall) :
    AgreeOff key (node.vote call).1 (node'.vote call).1 := by
  intro other differs
  by_cases touched : other = call.pair.key
  next =>
    subst touched
    have same := agree.answer differs
    cases allowed : (node'.vote call).2 with
    | false =>
        rw [allowed] at same
        rw [WinnerNode.vote, node.canVote_refused _ _ _ same, WinnerNode.vote,
          node'.canVote_refused _ _ _ allowed]
        exact agree _ differs
    | true =>
        rw [allowed] at same
        rw [WinnerNode.vote, node.canVote_recorded _ _ _ same, WinnerNode.vote,
          node'.canVote_recorded _ _ _ allowed]
        simp [VotePair.key, VoteCall.pair]
  next =>
    rw [vote_frame node call other touched, vote_frame node' call other touched]
    exact agree other differs

theorem AgreeOff.answersFor {pair other : VotePair} (agree : AgreeOff pair.key node node')
    (differ : other.key ≠ pair.key) (calls : List VoteCall) :
    node.answersFor other calls =
      node'.answersFor other (calls.filter fun call => call.pair ≠ pair) := by
  induction calls generalizing node node' with
  | nil => rfl
  | cons call rest ih =>
      by_cases silenced : call.pair = pair
      next =>
        have later : AgreeOff pair.key (node.vote call).1 node' := by
          intro untouched differs
          rw [vote_frame node call untouched (silenced ▸ differs), agree untouched differs]
        have elsewhere : pair ≠ other := fun same => differ (same ▸ rfl)
        simpa [WinnerNode.answersFor, answers, silenced, elsewhere] using ih later
      next =>
        have rest' := ih (agree.vote call)
        have kept : (call :: rest).filter (fun call => call.pair ≠ pair) =
            call :: rest.filter fun call => call.pair ≠ pair :=
          List.filter_cons_of_pos (by simpa using silenced)
        simp only [WinnerNode.answersFor] at rest'
        by_cases asked : call.pair = other
        next =>
          have same := agree.answer (asked ▸ differ)
          rw [kept]
          simp [WinnerNode.answersFor, answers, asked, same, rest']
        next =>
          rw [kept]
          simp [WinnerNode.answersFor, answers, asked, rest']

theorem undisturbed_iff (pair other : VotePair) (distinct : pair ≠ other) :
    Undisturbed pair other ↔ pair.key ≠ other.key := by
  constructor
  next =>
    intro undisturbed shared
    let started : WinnerNode := ⟨.empty, ∅⟩
    let first : VoteCall := ⟨pair.1, 0, pair.2⟩
    let second : VoteCall := ⟨other.1, 0, other.2⟩
    have asked : second.pair = other := rfl
    have kept : second.pair ≠ pair := distinct.symm
    have through : (started.vote second).2 = true := allowed_of_fresh 0 (AList.lookup_empty _)
    have earlier : (started.vote first).2 = true := allowed_of_fresh 0 (AList.lookup_empty _)
    have recorded : (started.vote first).1.Voted other.key 0 := by
      rw [← shared]
      exact voted_of_allowed earlier
    have refused : ((started.vote first).1.vote second).2 = false := recorded.refused
    have alone : started.answersFor other [second] = [(second, true)] := by
      simp [WinnerNode.answersFor, answers, through, asked]
    have after : started.answersFor other [first, second] = [(second, false)] := by
      have elsewhere : first.pair ≠ other := distinct
      simp [WinnerNode.answersFor, answers, refused, elsewhere, asked]
    have silenced : [first, second].filter (fun call => call.pair ≠ pair) = [second] := by
      have gone : first.pair = pair := rfl
      simp [gone, kept]
    have same := undisturbed .empty [first, second]
    rw [silenced, alone, after] at same
    simp at same
  next =>
    intro differ payments calls
    exact AgreeOff.answersFor (fun _ _ => rfl) differ.symm calls

end WinnerNode

theorem undisturbed_unrelated : WinnerNode.Undisturbed (⟨7, 0⟩, 1) (⟨8, 5⟩, 2) :=
  (WinnerNode.undisturbed_iff (⟨7, 0⟩, 1) (⟨8, 5⟩, 2) (by decide)).mpr (by decide)

theorem siblings_disturb :
    ((⟨7, 0⟩, 2) : VotePair) ≠ (⟨7, 1⟩, 1) ∧
      ¬ WinnerNode.Undisturbed (⟨7, 0⟩, 2) (⟨7, 1⟩, 1) := by
  refine ⟨by decide, fun undisturbed => ?_⟩
  have same := undisturbed .empty [⟨⟨7, 0⟩, 10, 2⟩, ⟨⟨7, 1⟩, 10, 1⟩]
  exact absurd same (by decide +kernel)

theorem voteKey_sibling_iff (hash : Uint256) (n n' mnlevel mnlevel' : Nat)
    (index : n < 2 ^ 32) (index' : n' < 2 ^ 32) (level : mnlevel < 2 ^ 32)
    (level' : mnlevel' < 2 ^ 32) :
    VotePair.key (⟨hash, n⟩, mnlevel) = VotePair.key (⟨hash, n'⟩, mnlevel') ↔
      n + mnlevel = n' + mnlevel' := by
  simp only [VotePair.key, WinnerNode.voteKey, BitVec.add_assoc, BitVec.add_right_inj,
    ← BitVec.ofNat_add]
  rw [← BitVec.toNat_inj, BitVec.toNat_ofNat, BitVec.toNat_ofNat]
  omega

end CryptoYen
