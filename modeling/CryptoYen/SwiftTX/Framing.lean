import CryptoYen.SwiftTX.Runs

set_option autoImplicit false

namespace CryptoYen

namespace SwiftContext

variable (ctx : SwiftContext) (s : SwiftState)

-- The sweep keeps the input locks of every transaction whose own lock has not expired.
def FramesOthers : Prop :=
  ∀ out txid lock, s.mapLockedInputs.lookup out = some txid →
    s.mapTxLocks.lookup txid = some lock → lock.expired ctx.getTime = false →
    (ctx.cleanTransactionLocksList s).mapLockedInputs.lookup out = some txid

-- What the request of an expired lock spends is locked for no transaction that is still waiting.
def SharesNoInput : Prop :=
  ctx.chainActive = [] ∨
    ∀ key lock tx, s.mapTxLocks.lookup key = some lock → lock.expired ctx.getTime = true →
      s.mapTxLockReq.lookup lock.txHash = some tx → ∀ out ∈ tx.prevouts, ∀ txid other,
      s.mapLockedInputs.lookup out = some txid → s.mapTxLocks.lookup txid = some other →
      other.expired ctx.getTime = true

theorem framesOthers_iff : ctx.FramesOthers s ↔ ctx.SharesNoInput s := by
  by_cases active : ctx.chainActive = []
  · have untouched : ctx.cleanTransactionLocksList s = s := by
      simp [cleanTransactionLocksList, active]
    simp only [FramesOthers, SharesNoInput, untouched, active, true_or, iff_true]
    exact fun _ _ _ locked _ _ => locked
  · simp only [FramesOthers, SharesNoInput, clean_inputs ctx s active, active, false_or]
    constructor
    · intro frames key lock tx present expires stored out spent txid other locked waiting
      by_contra alive
      have kept := frames out txid other locked waiting (Bool.not_eq_true _ ▸ alive)
      exact kept.2 ⟨key, lock, tx, present, expires, stored, spent⟩
    · intro shares out txid lock locked waiting alive
      refine ⟨locked, ?_⟩
      rintro ⟨key, expiring, tx, present, expires, stored, spent⟩
      have gone := shares key expiring tx present expires stored out spent txid lock locked waiting
      simp [alive] at gone

end SwiftContext

open ConflictingRequests in
theorem conflictingRequests_dropped :
    ¬ ∀ final, Machine.run (@SwiftState.step valueHasher) .empty requests = some final →
      (context 5000).FramesOthers final := by
  intro frames
  have kept := frames _ rfl coin 100000001 (((context 2000).newLock 100000001 84)) (by decide +kernel)
    (by decide +kernel) (by decide +kernel)
  exact absurd kept (by decide +kernel)

end CryptoYen
