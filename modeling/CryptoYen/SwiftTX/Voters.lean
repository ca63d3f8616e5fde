import CryptoYen.SwiftTX.LockedInputs
import CryptoYen.SwiftTX.Suppression

set_option autoImplicit false

namespace CryptoYen

namespace CTransactionLock

def countedVotes (lock : CTransactionLock) : List CConsensusVote :=
  lock.vecConsensusVotes.filter fun v => v.nBlockHeight == lock.nBlockHeight

def voters (votes : List CConsensusVote) : List COutPoint :=
  votes.map fun vote => vote.vinMasternode.prevout

-- No masternode is counted more than once: the count is that of the masternodes.
def CountsVoters (lock : CTransactionLock) : Prop :=
  lock.countSignatures =
    if lock.nBlockHeight = 0 then -1 else ((voters lock.countedVotes).dedup.length : Int)

theorem countsVoters_of_nodup (lock : CTransactionLock)
    (distinct : (voters lock.vecConsensusVotes).Nodup) : lock.CountsVoters := by
  have counted : (voters lock.countedVotes).Nodup := distinct.sublist (List.filter_sublist.map _)
  rw [CountsVoters, countSignatures, counted.dedup, voters, List.length_map, countedVotes,
    ← List.countP_eq_length_filter]

end CTransactionLock

namespace SwiftState

/-- What keeps a masternode from voting twice: votes that are in a lock are votes for it, they
differ in their hashes across all locks, and each of these hashes is still recorded. -/
structure VotesOnce (s : SwiftState) : Prop where
  own : ∀ txid, ∀ vote ∈ s.votesOf txid, vote.txHash = txid
  recorded : ∀ txid, ∀ vote ∈ s.votesOf txid, s.recorded vote.getHash = true
  distinct : ∀ txid, ((s.votesOf txid).map CConsensusVote.getHash).Nodup
  apart : ∀ txid other, ∀ vote ∈ s.votesOf txid, ∀ vote' ∈ s.votesOf other,
    vote.getHash = vote'.getHash → txid = other

namespace VotesOnce

theorem empty : SwiftState.empty.VotesOnce := by
  have none : ∀ txid, SwiftState.empty.votesOf txid = [] := fun _ => rfl
  constructor <;> simp [none]

theorem shrink {s t : SwiftState} (once : s.VotesOnce)
    (votes : ∀ txid, t.votesOf txid = s.votesOf txid ∨ t.votesOf txid = [])
    (kept : ∀ txid, ∀ vote ∈ t.votesOf txid, t.recorded vote.getHash = true) : t.VotesOnce := by
  have before : ∀ txid, ∀ vote ∈ t.votesOf txid, vote ∈ s.votesOf txid := by
    intro txid vote member
    cases votes txid with
    | inl same => exact same ▸ member
    | inr none => simp [none] at member
  refine ⟨fun txid vote member => once.own txid vote (before txid vote member), kept, ?_, ?_⟩
  · intro txid
    cases votes txid with
    | inl same => exact same ▸ once.distinct txid
    | inr none => simp [none]
  · intro txid other vote member vote' member'
    exact once.apart txid other vote (before txid vote member) vote' (before other vote' member')

theorem same {s t : SwiftState} (once : s.VotesOnce)
    (votes : ∀ txid, t.votesOf txid = s.votesOf txid)
    (kept : ∀ hash, s.recorded hash = true → t.recorded hash = true) : t.VotesOnce := by
  refine once.shrink (fun txid => .inl (votes txid)) fun txid vote member => ?_
  exact kept _ (once.recorded txid vote (votes txid ▸ member))

theorem add {s t : SwiftState} (once : s.VotesOnce) (vote : CConsensusVote)
    (fresh : s.recorded vote.getHash = false)
    (votes : ∀ txid, t.votesOf txid =
      if txid = vote.txHash then s.votesOf txid ++ [vote] else s.votesOf txid)
    (kept : ∀ hash, t.recorded hash = (s.recorded hash || vote.getHash == hash)) : t.VotesOnce := by
  have member : ∀ txid cv, cv ∈ t.votesOf txid ↔
      cv ∈ s.votesOf txid ∨ (cv = vote ∧ txid = vote.txHash) := by
    intro txid cv
    rw [votes txid]
    split
    next here => simp [here]
    next elsewhere => simp [elsewhere]
  have unlike : ∀ txid, ∀ cv ∈ s.votesOf txid, cv.getHash ≠ vote.getHash := by
    intro txid cv present same
    have seen := once.recorded txid cv present
    simp [same, fresh] at seen
  constructor
  · intro txid cv present
    rcases (member txid cv).mp present with old | ⟨rfl, rfl⟩
    · exact once.own txid cv old
    · rfl
  · intro txid cv present
    rcases (member txid cv).mp present with old | ⟨rfl, _⟩
    · simp [kept, once.recorded txid cv old]
    · simp [kept]
  · intro txid
    rw [votes txid]
    split
    next =>
      rw [List.map_append, List.nodup_append]
      refine ⟨once.distinct txid, by simp, ?_⟩
      intro hash present other single
      obtain ⟨cv, here, rfl⟩ := List.mem_map.mp present
      simp only [List.map_cons, List.map_nil, List.mem_singleton] at single
      exact single ▸ unlike txid cv here
    next => exact once.distinct txid
  · intro txid other cv present cv' present' same
    rcases (member txid cv).mp present with old | ⟨rfl, rfl⟩ <;>
      rcases (member other cv').mp present' with old' | ⟨rfl, rfl⟩
    · exact once.apart txid other cv old cv' old' same
    · exact absurd same (unlike txid cv old)
    · exact absurd same.symm (unlike other cv' old')
    · rfl

theorem voters_nodup {s : SwiftState} (once : s.VotesOnce) (txid : Uint256) :
    (CTransactionLock.voters (s.votesOf txid)).Nodup := by
  refine List.Nodup.map_on ?_ (once.distinct txid).of_map
  intro vote member vote' member' same
  refine List.inj_on_of_nodup_map (once.distinct txid) member member' ?_
  rw [CConsensusVote.getHash, CConsensusVote.getHash, same, once.own txid vote member,
    once.own txid vote' member']

end VotesOnce

end SwiftState

namespace SwiftContext

open SwiftState

variable [TxHasher] (ctx : SwiftContext)

theorem createNewLock_votesOf (s : SwiftState) (tx : CTransaction) (txid : Uint256) :
    (ctx.createNewLock s tx).1.votesOf txid = s.votesOf txid := by
  simp only [createNewLock]
  split
  next => rfl
  next =>
    split
    next absent =>
      by_cases same : txid = tx.getHash
      · subst same
        simp [votesOf, absent, newLock]
      · simp [votesOf, same]
    next lock present =>
      by_cases same : txid = tx.getHash
      · subst same
        simp [votesOf, present]
      · simp [votesOf, same]

theorem createNewLock_votes (s : SwiftState) (tx : CTransaction) :
    (ctx.createNewLock s tx).1.mapTxLockVote = s.mapTxLockVote := by
  simp only [createNewLock]
  split
  next => rfl
  next => split <;> rfl

theorem doConsensusVote_recorded (s : SwiftState) (tx : CTransaction) (nBlockHeight : Int)
    (hash : Uint256) (before : s.recorded hash = true) :
    (ctx.doConsensusVote s tx nBlockHeight).recorded hash = true := by
  simp only [doConsensusVote]
  split
  next => exact before
  next =>
    split
    next => exact before
    next vote _ =>
      split
      next =>
        simp only [recorded, SwiftState.emit, Assoc.lookup_insert] at before ⊢
        split
        next => rfl
        next => exact before
      next => exact before

theorem resolveConflicts_votesOf (s : SwiftState) (tx : CTransaction) (txid : Uint256) :
    (ctx.resolveConflicts s tx).votesOf txid = s.votesOf txid := by
  simp only [resolveConflicts]
  split
  next => rfl
  next =>
    split
    next =>
      split
      next => exact ctx.checkForConflictingLocks_votesOf s tx txid
      next => exact ctx.checkForConflictingLocks_votesOf s tx txid
    next => rfl

theorem resolveConflicts_votes (s : SwiftState) (tx : CTransaction) :
    (ctx.resolveConflicts s tx).mapTxLockVote = s.mapTxLockVote := by
  have checked : (ctx.checkForConflictingLocks s tx).1.mapTxLockVote = s.mapTxLockVote := by
    simp only [checkForConflictingLocks]
    split <;> rfl
  simp only [resolveConflicts]
  split
  next => rfl
  next =>
    split
    next => split <;> exact checked
    next => rfl

theorem acceptRequest_votesOnce (s : SwiftState) (tx : CTransaction) (nBlockHeight : Int)
    (once : s.VotesOnce) : (ctx.acceptRequest s tx nBlockHeight).VotesOnce := by
  have emitted := Quiet.emit s (.relayRequest tx.getHash)
  have voted := emitted.toSameLocks.trans (ctx.doConsensusVote_sameLocks _ tx nBlockHeight)
  have notified := ctx.notifyComplete_quiet (insertRequest (ctx.doConsensusVote
    (s.emit (.relayRequest tx.getHash)) tx nBlockHeight) tx.getHash tx) tx.getHash tx
  refine once.same (fun txid => ?_) fun hash before => ?_
  · exact (notified.votesOf txid).trans (voted.votesOf txid)
  · rw [acceptRequest, recorded, notified.votes]
    exact ctx.doConsensusVote_recorded _ tx nBlockHeight hash before

theorem processRequest_votesOnce (s : SwiftState) (tx : CTransaction) (once : s.VotesOnce) :
    (ctx.processRequest s tx).VotesOnce := by
  have created : (ctx.createNewLock s tx).1.VotesOnce :=
    once.same (ctx.createNewLock_votesOf s tx) fun hash before => by
      rw [recorded, ctx.createNewLock_votes]
      exact before
  simp only [processRequest]
  split
  next =>
    split
    next => exact ctx.acceptRequest_votesOnce _ tx _ created
    next =>
      refine created.same (fun txid => ?_) fun hash before => ?_
      · exact ctx.resolveConflicts_votesOf _ tx txid
      · rw [refuseRequest, recorded, ctx.resolveConflicts_votes]
        exact before
  next => exact once

theorem submitRequest_votesOnce (s : SwiftState) (tx : CTransaction) (once : s.VotesOnce) :
    (ctx.submitRequest s tx).VotesOnce := by
  refine once.same (ctx.createNewLock_votesOf (insertRequest s tx.getHash tx) tx)
    fun hash before => ?_
  rw [submitRequest, recorded, SwiftState.emit, ctx.createNewLock_votes]
  exact before

theorem processVote_votesOnce (s : SwiftState) (vote : CConsensusVote) (once : s.VotesOnce) :
    (ctx.processVote s vote).VotesOnce := by
  by_cases added : ctx.takesVote s vote = true ∧ ctx.voteAllowed vote = true
  · have taken := added.1
    simp only [takesVote, Bool.and_eq_true, Bool.not_eq_true'] at taken
    refine once.add vote taken.2 (fun txid => ?_) fun hash => ?_
    · simp only [ctx.processVote_votesOf, added, true_and]
    · rw [ctx.processVote_recorded, taken.1]
      rfl
  · refine once.same (fun txid => ?_) fun hash before => ?_
    · rw [ctx.processVote_votesOf, if_neg fun both => added ⟨both.1, both.2.1⟩]
    · rw [ctx.processVote_recorded, before, Bool.true_or]

omit [TxHasher] in
theorem clean_votesOf (s : SwiftState) (active : ctx.chainActive ≠ []) (txid : Uint256) :
    (ctx.cleanTransactionLocksList s).votesOf txid = [] ∨
      (ctx.cleanTransactionLocksList s).votesOf txid = s.votesOf txid ∧
        ∀ lock, s.mapTxLocks.lookup txid = some lock → lock.expired ctx.getTime = false := by
  cases after : (ctx.cleanTransactionLocksList s).mapTxLocks.lookup txid with
  | none => exact .inl (by simp [votesOf, after])
  | some lock =>
      obtain ⟨before, alive⟩ := (ctx.clean_locks s active txid lock).mp after
      refine .inr ⟨by simp [votesOf, after, before], fun other present => ?_⟩
      rw [before] at present
      cases present
      exact alive

omit [TxHasher] in
theorem clean_votesOnce (s : SwiftState) (named : s.LocksNamed) (once : s.VotesOnce) :
    (ctx.cleanTransactionLocksList s).VotesOnce := by
  by_cases active : ctx.chainActive = []
  · simpa [cleanTransactionLocksList, active] using once
  · refine once.shrink (fun txid => ?_) fun txid vote member => ?_
    · exact (ctx.clean_votesOf s active txid).symm.imp_left And.left
    · cases ctx.clean_votesOf s active txid with
      | inl none => simp [none] at member
      | inr kept =>
          rw [kept.1] at member
          obtain ⟨record, before⟩ := Option.isSome_iff_exists.mp (once.recorded txid vote member)
          rw [recorded, (ctx.clean_votes s named active vote.getHash record).mpr ⟨before, ?_⟩]
          · rfl
          · -- an expired lock with a vote of this hash is the lock of this vote
            rintro ⟨other, lock, present, expires, _, cast, here, same⟩
            have there : cast ∈ s.votesOf other := by simpa [votesOf, present] using here
            have lock_same := once.apart other txid cast there vote member same
            simp [kept.2 lock (lock_same ▸ present)] at expires

end SwiftContext

namespace SwiftState

theorem LocksNamed.keeps {s t : SwiftState} (named : s.LocksNamed) (keeps : s.Keeps t) :
    t.LocksNamed := by
  intro txid lock present
  cases keeps.named txid lock present with
  | inl same => exact same
  | inr kept =>
      obtain ⟨old, before, same⟩ := kept
      exact same ▸ named txid old before

end SwiftState

namespace SwiftContext

open SwiftState

variable [TxHasher] (ctx : SwiftContext)

theorem createNewLock_named (s : SwiftState) (tx : CTransaction) (named : s.LocksNamed) :
    (ctx.createNewLock s tx).1.LocksNamed := by
  intro txid lock present
  by_cases same : txid = tx.getHash
  · subst same
    rcases ctx.createNewLock_cases s tx lock present with before | ⟨_, _, rfl | ⟨old, before, rfl⟩⟩
    · exact named _ lock before
    · rfl
    · exact named _ old before
  · rw [ctx.createNewLock_lookup s tx txid same] at present
    exact named txid lock present

theorem processRequest_named (s : SwiftState) (tx : CTransaction) (named : s.LocksNamed) :
    (ctx.processRequest s tx).LocksNamed := by
  have created := ctx.createNewLock_named s tx named
  simp only [processRequest]
  split
  next =>
    split
    next => exact created.keeps (ctx.acceptRequest_keeps _ tx _)
    next =>
      have rejected := created.keeps (.insertRejected _ tx.getHash tx)
      have locked : ((insertRejected (ctx.createNewLock s tx).1 tx.getHash tx).lockInputs tx
          tx.getHash).LocksNamed := rejected
      exact locked.keeps (ctx.resolveConflicts_keeps _ tx)
  next => exact named

theorem completeLock_named (s : SwiftState) (txid : Uint256) (lock : CTransactionLock)
    (named : s.LocksNamed) : (ctx.completeLock s txid lock).LocksNamed := by
  have checked := (Keeps.requestOf s txid).trans
    (Keeps.checkForConflictingLocks ctx (requestOf s txid).1 (requestOf s txid).2)
  simp only [completeLock]
  split
  next => exact named.keeps checked
  next =>
    have counted := named.keeps (checked.trans
      (Keeps.of_sameLocks (ctx.countComplete_quiet _ lock.txHash).toSameLocks))
    refine LocksNamed.keeps ?_ (.of_sameLocks (reprocessRejected_quiet _ _).toSameLocks)
    exact counted

theorem processVote_named (s : SwiftState) (vote : CConsensusVote) (named : s.LocksNamed) :
    (ctx.processVote s vote).LocksNamed := by
  have recorded : (recordVote s vote).LocksNamed := named
  have added := recorded.keeps (Keeps.addVote ctx (recordVote s vote) vote)
  simp only [processVote, processConsensusVote]
  split
  next => exact named
  next =>
    refine LocksNamed.keeps ?_ (.of_sameLocks (ctx.afterVote_quiet _ _ _).toSameLocks)
    split
    next =>
      split
      next => exact ctx.completeLock_named _ _ _ added
      next => exact added
    next =>
      have refused := ctx.refuseVote_quiet (recordVote s vote) vote
      exact recorded.keeps (.of_sameLocks refused.toSameLocks)

omit [TxHasher] in
theorem clean_named (s : SwiftState) (named : s.LocksNamed) :
    (ctx.cleanTransactionLocksList s).LocksNamed := by
  by_cases active : ctx.chainActive = []
  · simpa [cleanTransactionLocksList, active] using named
  · exact fun txid lock present => named txid lock ((ctx.clean_locks s active txid lock).mp present).1

end SwiftContext

namespace SwiftState

variable [TxHasher]

theorem step_named (s next : SwiftState) (label : SwiftLabel) (named : s.LocksNamed)
    (stepped : s.step label = some next) : next.LocksNamed := by
  obtain ⟨ctx, message⟩ := label
  cases stepped
  cases message with
  | ix tx => exact ctx.processRequest_named s tx named
  | txlvote vote => exact ctx.processVote_named s vote named
  | submit tx =>
      have created := ctx.createNewLock_named (SwiftContext.insertRequest s tx.getHash tx) tx named
      exact created
  | clean => exact ctx.clean_named s named

omit [TxHasher] in
theorem empty_named : empty.LocksNamed := fun _ _ present => by cases present

theorem step_votesOnce (s next : SwiftState) (label : SwiftLabel) (named : s.LocksNamed)
    (once : s.VotesOnce) (stepped : s.step label = some next) : next.VotesOnce := by
  obtain ⟨ctx, message⟩ := label
  cases stepped
  cases message with
  | ix tx => exact ctx.processRequest_votesOnce s tx once
  | txlvote vote => exact ctx.processVote_votesOnce s vote once
  | submit tx => exact ctx.submitRequest_votesOnce s tx once
  | clean => exact ctx.clean_votesOnce s named once

theorem votesOnce_run (labels : List SwiftLabel) (final : SwiftState)
    (ran : Machine.run step empty labels = some final) : final.VotesOnce := by
  have kept := Machine.run_invariant step (fun _ _ => True) (fun s => s.LocksNamed ∧ s.VotesOnce)
    (fun s label next inv _ stepped =>
      ⟨s.step_named next label inv.1 stepped, s.step_votesOnce next label inv.1 inv.2 stepped⟩)
    empty final labels ⟨empty_named, .empty⟩ (Machine.along_true step empty labels) ran
  exact kept.2

theorem voters_distinct (labels : List SwiftLabel) (final : SwiftState)
    (ran : Machine.run step empty labels = some final) (txid : Uint256) (lock : CTransactionLock)
    (present : final.mapTxLocks.lookup txid = some lock) :
    (CTransactionLock.voters lock.vecConsensusVotes).Nodup ∧ lock.CountsVoters := by
  have distinct := (votesOnce_run labels final ran).voters_nodup txid
  simp only [votesOf, present, Option.map_some, Option.getD_some] at distinct
  exact ⟨distinct, lock.countsVoters_of_nodup distinct⟩

end SwiftState

open ConflictingRequests in
theorem voters_distinct_voted :
    ∃ final lock, Machine.run (@SwiftState.step valueHasher) .empty votedRun = some final ∧
      final.mapTxLocks.lookup 100000000 = some lock ∧ lock.countSignatures = 6 ∧
      (CTransactionLock.voters lock.vecConsensusVotes).Nodup ∧ lock.CountsVoters := by
  let lock : CTransactionLock := { (context 1000).newLock 100000000 84 with
    vecConsensusVotes := [1, 2, 3, 4, 5, 6].map fun masternode => vote masternode [1] }
  have voted : ((@SwiftContext.handle valueHasher (context 2000)
      (@SwiftState.runVotes valueHasher (@SwiftContext.handle valueHasher (context 1000) .empty
        (.ix first)) ([1, 2, 3, 4, 5, 6].map fun masternode =>
          (context 1100, vote masternode [1])))) .clean).mapTxLocks.lookup 100000000 = some lock := by
    decide +kernel
  exact ⟨_, lock, rfl, voted, by decide +kernel,
    @SwiftState.voters_distinct valueHasher votedRun _ rfl 100000000 lock voted⟩

end CryptoYen
