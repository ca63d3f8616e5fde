import CryptoYen.SwiftTX.Voters

set_option autoImplicit false

namespace CryptoYen

namespace SwiftState

def Refers (s : SwiftState) (txid : Uint256) : Prop :=
  (s.mapTxLockReq.lookup txid).isSome = true ∨ (s.mapTxLockReqRejected.lookup txid).isSome = true ∨
    (∃ out, s.mapLockedInputs.lookup out = some txid) ∨
    ∃ hash vote, s.mapTxLockVote.lookup hash = some vote ∧ vote.txHash = txid

end SwiftState

namespace SwiftContext

open SwiftState

variable (ctx : SwiftContext) (s : SwiftState)

def LeavesNothing : Prop :=
  ∀ txid lock, s.mapTxLocks.lookup txid = some lock →
    (ctx.cleanTransactionLocksList s).mapTxLocks.lookup txid = none →
    ¬ (ctx.cleanTransactionLocksList s).Refers lock.txHash

/-- What is left of an expired lock can be reached from a stored request: one that was refused is
stored too, the inputs locked for it are spent by stored requests of expired locks, and the votes
for it that were recorded are in such locks. -/
def Reachable (txid : Uint256) : Prop :=
  ((s.mapTxLockReqRejected.lookup txid).isSome = true → (s.mapTxLockReq.lookup txid).isSome = true) ∧
    (∀ out, s.mapLockedInputs.lookup out = some txid → s.Frees ctx.getTime out) ∧
    ∀ hash vote, s.mapTxLockVote.lookup hash = some vote → vote.txHash = txid →
      s.Erases ctx.getTime hash

def SweepsAll : Prop :=
  ctx.chainActive = [] ∨ ∀ txid lock, s.mapTxLocks.lookup txid = some lock →
    lock.expired ctx.getTime = true → ctx.Reachable s txid

theorem clean_refers (named : s.LocksNamed) (active : ctx.chainActive ≠ []) (txid : Uint256)
    (lock : CTransactionLock) (present : s.mapTxLocks.lookup txid = some lock)
    (expires : lock.expired ctx.getTime = true) :
    ¬ (ctx.cleanTransactionLocksList s).Refers txid ↔ ctx.Reachable s txid := by
  have request : ∀ tx, (ctx.cleanTransactionLocksList s).mapTxLockReq.lookup txid ≠ some tx := by
    intro tx stored
    have alive := ((ctx.clean_requests s active txid tx).mp stored).2 txid lock present
      (named txid lock present)
    simp [expires] at alive
  have rejected : ((ctx.cleanTransactionLocksList s).mapTxLockReqRejected.lookup txid).isSome = true ↔
      (s.mapTxLockReqRejected.lookup txid).isSome = true ∧
        ¬ (s.mapTxLockReq.lookup txid).isSome = true := by
    simp only [Option.isSome_iff_exists, ctx.clean_rejected s named active, present,
      Option.some.injEq, exists_eq_left', expires, and_true, exists_and_right]
  have request_none :
      ((ctx.cleanTransactionLocksList s).mapTxLockReq.lookup txid).isSome = true ↔ False := by
    simp only [Option.isSome_iff_exists, request, exists_false]
  simp only [Refers, request_none, rejected, ctx.clean_inputs s active,
    ctx.clean_votes s named active, false_or, not_or, Reachable]
  refine and_congr ?_ (and_congr ?_ ?_)
  · rw [not_and, not_not]
  · simp only [not_exists, not_and, not_not]
  · constructor
    · intro kept hash vote recorded same
      by_contra lost
      exact kept ⟨hash, vote, ⟨recorded, lost⟩, same⟩
    · rintro erased ⟨hash, vote, ⟨recorded, kept⟩, same⟩
      exact kept (erased hash vote recorded same)

theorem leavesNothing_iff (named : s.LocksNamed) : ctx.LeavesNothing s ↔ ctx.SweepsAll s := by
  by_cases active : ctx.chainActive = []
  · have untouched : ctx.cleanTransactionLocksList s = s := by
      simp [cleanTransactionLocksList, active]
    refine iff_of_true (fun txid lock present gone => ?_) (.inl active)
    rw [untouched, present] at gone
    cases gone
  · simp only [LeavesNothing, SweepsAll, active, false_or]
    refine forall₃_congr fun txid lock present => ?_
    have gone : (ctx.cleanTransactionLocksList s).mapTxLocks.lookup txid = none ↔
        lock.expired ctx.getTime = true := by
      rw [Option.eq_none_iff_forall_ne_some]
      simp only [ne_eq, ctx.clean_locks s active, present, Option.some.injEq, not_and,
        Bool.not_eq_false, forall_eq']
    rw [gone, named txid lock present]
    exact forall_congr' fun expires => ctx.clean_refers s named active txid lock present expires

end SwiftContext

namespace SwiftState

def SweptClean (s : SwiftState) (label : SwiftLabel) : Prop :=
  label.2 = .clean → label.1.LeavesNothing s

def SweepsReachable (s : SwiftState) (label : SwiftLabel) : Prop :=
  label.2 = .clean → label.1.SweepsAll s

end SwiftState

end CryptoYen
