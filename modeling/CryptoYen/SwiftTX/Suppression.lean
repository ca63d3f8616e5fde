import CryptoYen.SwiftTX.Backing

set_option autoImplicit false

namespace CryptoYen

abbrev VoteMessage := SwiftContext × CConsensusVote

namespace SwiftState

def votesOf (s : SwiftState) (txid : Uint256) : List CConsensusVote :=
  ((s.mapTxLocks.lookup txid).map CTransactionLock.vecConsensusVotes).getD []

def Counted (s : SwiftState) (vote : CConsensusVote) : Prop := vote ∈ s.votesOf vote.txHash

instance (s : SwiftState) (vote : CConsensusVote) : Decidable (s.Counted vote) :=
  inferInstanceAs (Decidable (vote ∈ s.votesOf vote.txHash))

def recorded (s : SwiftState) (hash : Uint256) : Bool := (s.mapTxLockVote.lookup hash).isSome

def runVotes [TxHasher] (s : SwiftState) (messages : List VoteMessage) : SwiftState :=
  messages.foldl (fun s message => message.1.processVote s message.2) s

theorem SameLocks.votesOf {s t : SwiftState} (same : s.SameLocks t) (txid : Uint256) :
    t.votesOf txid = s.votesOf txid := by
  simp [SwiftState.votesOf, same.locks]

theorem setExpiration_votesOf (s : SwiftState) (txid other : Uint256) (nExpiration : Int) :
    (s.setExpiration txid nExpiration).votesOf other = s.votesOf other := by
  simp only [votesOf, setExpiration, Assoc.lookup_modify]
  split
  next same =>
    subst same
    simp [Option.map_map, Function.comp_def]
  next => rfl

end SwiftState

namespace SwiftContext

open SwiftState

variable [TxHasher] (ctx : SwiftContext)

theorem checkForConflictingLocks_votesOf (s : SwiftState) (tx : CTransaction) (txid : Uint256) :
    (ctx.checkForConflictingLocks s tx).1.votesOf txid = s.votesOf txid := by
  simp only [checkForConflictingLocks]
  split
  next => rfl
  next => rw [setExpiration_votesOf, setExpiration_votesOf]

theorem completeLock_votesOf (s : SwiftState) (txid other : Uint256) (lock : CTransactionLock) :
    (ctx.completeLock s txid lock).votesOf other = s.votesOf other := by
  have requested : (requestOf s txid).1.votesOf other = s.votesOf other := by
    simp only [requestOf]
    split <;> rfl
  have checked := (ctx.checkForConflictingLocks_votesOf (requestOf s txid).1 (requestOf s txid).2
    other).trans requested
  simp only [completeLock]
  split
  next => exact checked
  next =>
    rw [(reprocessRejected_quiet _ _).votesOf]
    exact ((ctx.countComplete_quiet _ lock.txHash).votesOf other).trans checked

omit [TxHasher] in
theorem addVote_votesOf (s : SwiftState) (vote : CConsensusVote) (txid : Uint256) :
    (ctx.addVote s vote).votesOf txid =
      if txid = vote.txHash then s.votesOf txid ++ [vote] else s.votesOf txid := by
  simp only [votesOf, addVote, Assoc.lookup_insert]
  split
  next same =>
    subst same
    cases present : s.mapTxLocks.lookup vote.txHash <;>
      simp [votedLock, present, CTransactionLock.addSignature, newLock]
  next => rfl

def takesVote (s : SwiftState) (vote : CConsensusVote) : Bool :=
  !ctx.disabled && !s.recorded vote.getHash

theorem processConsensusVote_votesOf (s : SwiftState) (vote : CConsensusVote) (txid : Uint256) :
    (ctx.processConsensusVote s vote).1.votesOf txid =
      if ctx.voteAllowed vote = true ∧ txid = vote.txHash then s.votesOf txid ++ [vote]
      else s.votesOf txid := by
  simp only [processConsensusVote]
  by_cases allowed : ctx.voteAllowed vote = true
  · simp only [allowed, ↓reduceIte, true_and]
    split
    next => rw [ctx.completeLock_votesOf, ctx.addVote_votesOf]
    next => rw [ctx.addVote_votesOf]
  · simp only [allowed, ↓reduceIte, false_and, Bool.false_eq_true]
    exact (ctx.refuseVote_quiet s vote).votesOf txid

theorem processVote_votesOf (s : SwiftState) (vote : CConsensusVote) (txid : Uint256) :
    (ctx.processVote s vote).votesOf txid =
      if ctx.takesVote s vote = true ∧ ctx.voteAllowed vote = true ∧ txid = vote.txHash then
        s.votesOf txid ++ [vote]
      else s.votesOf txid := by
  cases disabled : ctx.disabled with
  | true => simp [processVote, takesVote, disabled]
  | false =>
      cases seen : s.recorded vote.getHash with
      | true =>
          have known : (s.mapTxLockVote.lookup vote.getHash).isSome = true := seen
          simp [processVote, takesVote, disabled, seen, known]
      | false =>
          have unknown : (s.mapTxLockVote.lookup vote.getHash).isSome = false := seen
          simp only [processVote, takesVote, disabled, seen, unknown, Bool.or_self,
            Bool.false_eq_true, ↓reduceIte, Bool.not_false, Bool.and_self, true_and]
          rw [(ctx.afterVote_quiet _ _ _).votesOf, ctx.processConsensusVote_votesOf]
          rfl

theorem completeLock_votes (s : SwiftState) (txid : Uint256) (lock : CTransactionLock) :
    (ctx.completeLock s txid lock).mapTxLockVote = s.mapTxLockVote := by
  have requested : (requestOf s txid).1.mapTxLockVote = s.mapTxLockVote := by
    simp only [requestOf]
    split <;> rfl
  have checked : (ctx.checkForConflictingLocks (requestOf s txid).1
      (requestOf s txid).2).1.mapTxLockVote = s.mapTxLockVote := by
    rw [← requested]
    simp only [checkForConflictingLocks]
    split <;> rfl
  simp only [completeLock]
  split
  next => exact checked
  next =>
    rw [(reprocessRejected_quiet _ _).votes]
    exact (ctx.countComplete_quiet _ lock.txHash).votes.trans checked

theorem processConsensusVote_votes (s : SwiftState) (vote : CConsensusVote) :
    (ctx.processConsensusVote s vote).1.mapTxLockVote = s.mapTxLockVote := by
  simp only [processConsensusVote]
  split
  next =>
    split
    next => exact ctx.completeLock_votes _ _ _
    next => rfl
  next => exact (ctx.refuseVote_quiet s vote).votes

theorem processVote_recorded (s : SwiftState) (vote : CConsensusVote) (hash : Uint256) :
    (ctx.processVote s vote).recorded hash =
      (s.recorded hash || (!ctx.disabled && vote.getHash == hash)) := by
  cases disabled : ctx.disabled with
  | true => simp [processVote, disabled]
  | false =>
      cases seen : s.recorded vote.getHash with
      | true =>
          have known : (s.mapTxLockVote.lookup vote.getHash).isSome = true := seen
          by_cases same : vote.getHash = hash
          · subst same
            simp [processVote, known, seen]
          · simp [processVote, known, same]
      | false =>
          have unknown : (s.mapTxLockVote.lookup vote.getHash).isSome = false := seen
          simp only [processVote, disabled, unknown, Bool.or_self, Bool.false_eq_true, ↓reduceIte]
          rw [recorded, (ctx.afterVote_quiet _ _ _).votes, ctx.processConsensusVote_votes]
          by_cases same : vote.getHash = hash
          · subst same
            simp [recordVote]
          · simp [recordVote, recorded, same, AList.lookup_insert_ne (Ne.symm same)]

end SwiftContext

def handlesHash (hash : Uint256) (message : VoteMessage) : Bool :=
  !message.1.disabled && message.2.getHash == hash

namespace SwiftState

variable [TxHasher]

theorem counted_processVote (s : SwiftState) (ctx : SwiftContext) (vote other : CConsensusVote) :
    (ctx.processVote s vote).Counted other ↔
      s.Counted other ∨ (ctx.takesVote s vote = true ∧ ctx.voteAllowed vote = true ∧ vote = other) := by
  simp only [Counted, ctx.processVote_votesOf]
  split
  next taken =>
    simp only [List.mem_append, List.mem_singleton, taken, true_and]
    exact or_congr_right eq_comm
  next refused =>
    refine ⟨.inl, ?_⟩
    rintro (before | ⟨taken, allowed, rfl⟩)
    · exact before
    · exact absurd ⟨taken, allowed, rfl⟩ refused

theorem counted_runVotes_recorded (s : SwiftState) (messages : List VoteMessage)
    (vote : CConsensusVote) (seen : s.recorded vote.getHash = true) :
    (s.runVotes messages).Counted vote ↔ s.Counted vote := by
  induction messages generalizing s with
  | nil => rfl
  | cons message rest ih =>
      obtain ⟨ctx, other⟩ := message
      have later : (ctx.processVote s other).recorded vote.getHash = true := by
        rw [ctx.processVote_recorded, seen, Bool.true_or]
      refine (ih _ later).trans ?_
      rw [counted_processVote]
      refine ⟨?_, .inl⟩
      rintro (before | ⟨taken, _, rfl⟩)
      · exact before
      · simp [SwiftContext.takesVote, seen] at taken

theorem counted_runVotes (s : SwiftState) (messages : List VoteMessage) (vote : CConsensusVote)
    (unseen : s.recorded vote.getHash = false) :
    (s.runVotes messages).Counted vote ↔
      s.Counted vote ∨ ∃ ctx, messages.find? (handlesHash vote.getHash) = some (ctx, vote) ∧
        ctx.voteAllowed vote = true := by
  induction messages generalizing s with
  | nil => simp [runVotes]
  | cons message rest ih =>
      obtain ⟨ctx, other⟩ := message
      have recorded := ctx.processVote_recorded s other vote.getHash
      have counted := counted_processVote s ctx other vote
      have run : s.runVotes ((ctx, other) :: rest) = (ctx.processVote s other).runVotes rest := rfl
      rw [unseen, Bool.false_or] at recorded
      cases handled : handlesHash vote.getHash (ctx, other) with
      | true =>
          have seen : (ctx.processVote s other).recorded vote.getHash = true :=
            recorded.trans handled
          have first : ((ctx, other) :: rest).find? (handlesHash vote.getHash) = some (ctx, other) := by
            simp [handled]
          simp only [handlesHash, Bool.and_eq_true, beq_iff_eq] at handled
          have taken : ctx.takesVote s other = true := by
            simp only [SwiftContext.takesVote, handled.1, handled.2, unseen, Bool.not_false,
              Bool.and_self]
          rw [run, counted_runVotes_recorded _ rest vote seen, counted, first]
          refine or_congr_right ?_
          simp only [taken, true_and, Option.some.injEq, Prod.mk.injEq]
          constructor
          · rintro ⟨allowed, rfl⟩
            exact ⟨ctx, ⟨rfl, rfl⟩, allowed⟩
          · rintro ⟨_, ⟨rfl, rfl⟩, allowed⟩
            exact ⟨allowed, rfl⟩
      | false =>
          have unseen' : (ctx.processVote s other).recorded vote.getHash = false :=
            recorded.trans handled
          have skipped : ((ctx, other) :: rest).find? (handlesHash vote.getHash) =
              rest.find? (handlesHash vote.getHash) := by
            simp [handled]
          rw [run, ih _ unseen', counted, skipped]
          refine or_congr_left ⟨?_, .inl⟩
          rintro (before | ⟨taken, _, rfl⟩)
          · exact before
          · simp only [SwiftContext.takesVote, Bool.and_eq_true] at taken
            simp [handlesHash, taken.1] at handled

/-- The forged vote takes nothing from the genuine one: its hash was recorded before, the genuine
vote was counted before, or it is not the first of its hash to be handled, or not allowed then. -/
def NothingToSuppress (s : SwiftState) (later : List VoteMessage) (genuine : CConsensusVote) : Prop :=
  s.recorded genuine.getHash = true ∨ s.Counted genuine ∨
    ∀ ctx, later.find? (handlesHash genuine.getHash) = some (ctx, genuine) →
      ctx.voteAllowed genuine = false

def Unsuppressed (s : SwiftState) (forged : VoteMessage) (later : List VoteMessage)
    (genuine : CConsensusVote) : Prop :=
  (s.runVotes (forged :: later)).Counted genuine ↔ (s.runVotes later).Counted genuine

theorem unsuppressed_iff (s : SwiftState) (ctx ctx' : SwiftContext)
    (forged genuine : CConsensusVote) (messages : List VoteMessage) (enabled : ctx.disabled = false)
    (rejected : ctx.voteAllowed forged = false)
    (masternode : genuine.vinMasternode.prevout = forged.vinMasternode.prevout)
    (transaction : genuine.txHash = forged.txHash) :
    s.Unsuppressed (ctx, forged) (messages ++ [(ctx', genuine)]) genuine ↔
      s.NothingToSuppress (messages ++ [(ctx', genuine)]) genuine := by
  have hash : forged.getHash = genuine.getHash := by
    simp [CConsensusVote.getHash, masternode, transaction]
  have recorded : (ctx.processVote s forged).recorded genuine.getHash = true := by
    simp [ctx.processVote_recorded, enabled, hash]
  -- with the forged vote, the genuine one is counted only if it was before
  have suppressed : (s.runVotes ((ctx, forged) :: (messages ++ [(ctx', genuine)]))).Counted genuine ↔
      s.Counted genuine := by
    refine (counted_runVotes_recorded _ (messages ++ [(ctx', genuine)]) genuine recorded).trans ?_
    simp [counted_processVote, rejected]
  rw [Unsuppressed, suppressed, NothingToSuppress]
  cases seen : s.recorded genuine.getHash with
  | true => simp [counted_runVotes_recorded s _ genuine seen]
  | false =>
      simp only [counted_runVotes s _ genuine seen, Bool.false_eq_true, false_or]
      by_cases before : s.Counted genuine
      · simp [before]
      · simp [before]

end SwiftState

open ConflictingRequests in
theorem forgedVote_suppresses :
    (context 1000).voteAllowed (vote 1 [0]) = false ∧ (context 1001).voteAllowed (vote 1 [1]) = true ∧
      ¬ @SwiftState.Unsuppressed valueHasher .empty (context 1000, vote 1 [0])
        [(context 1001, vote 1 [1])] (vote 1 [1]) := by
  refine ⟨by decide +kernel, by decide +kernel, fun unsuppressed => ?_⟩
  have counted : (@SwiftState.runVotes valueHasher .empty [(context 1001, vote 1 [1])]).Counted
      (vote 1 [1]) := by decide +kernel
  exact absurd (unsuppressed.mpr counted) (by decide +kernel)

open ConflictingRequests in
theorem unsuppressed_iff_recorded :
    @SwiftState.Unsuppressed valueHasher
      (@SwiftState.runVotes valueHasher .empty [(context 1000, vote 1 [1])])
      (context 1001, vote 1 [0]) [(context 1002, vote 1 [1])] (vote 1 [1]) :=
  (@SwiftState.unsuppressed_iff valueHasher _ (context 1001) (context 1002) (vote 1 [0]) (vote 1 [1])
    [] rfl (by decide +kernel) rfl rfl).mpr (.inl (by decide +kernel))

end CryptoYen
