import CryptoYen.Masternodes.Storage
import CryptoYen.Staking.Payments

set_option autoImplicit false

namespace CryptoYen

abbrev LevelCounts := AList fun _ : Nat => Int

namespace ElectionContext

def countEnabledByLevels (ctx : ElectionContext) (man : CMasternodeMan) : LevelCounts :=
  let enabled := man.vMasternodes.filter fun mn =>
    decide (ctx.activeProtocol ≤ mn.protocolVersion) && ctx.isEnabled mn
  enabled.foldl
    (fun result mn => result.insert (ctx.level mn) ((result.lookup (ctx.level mn)).getD 0 + 1))
    (masternodeLevels.foldl (fun result l => result.insert l 0) ∅)

end ElectionContext

namespace CMasternodePayments

-- How far back the winners of a level are offered; an unknown level counts as zero.
def blocksBack (mn_counts : LevelCounts) (nCountNeeded : Int) (payeeLevel : Nat) : Int :=
  match mn_counts.lookup payeeLevel with
  | some count => min nCountNeeded (count.tdiv 100 * 125)
  | none => 0

def pushes (mn_counts : LevelCounts) (nHeight nCountNeeded : Int)
    (winner : CMasternodePaymentWinner) : Bool :=
  decide (nHeight - blocksBack mn_counts nCountNeeded winner.payeeLevel ≤ winner.nBlockHeight) &&
    decide (winner.nBlockHeight ≤ nHeight + 20)

/-- Sync: the winners that are offered to a peer, with the number that "ssc" reports. -/
def sync [WinnerHasher] (payments : CMasternodePayments) (nTipHeight : Option Int)
    (mn_counts : LevelCounts) (nCountNeeded : Int) : Option (List Uint256 × Nat) :=
  nTipHeight.map fun nHeight =>
    let winners := (Codec.sortedEntries BitVec.toNat payments.mapMasternodePayeeVotes).filter
      fun vote => pushes mn_counts nHeight nCountNeeded vote.2
    (winners.map fun vote => vote.2.getHash, winners.length)

def SameWinners (payments other : CMasternodePayments) : Prop :=
  ∀ hash, payments.mapMasternodePayeeVotes.lookup hash = other.mapMasternodePayeeVotes.lookup hash

def SameTallies (payments other : CMasternodePayments) : Prop :=
  ∀ nBlockHeight,
    payments.mapMasternodeBlocks.lookup nBlockHeight = other.mapMasternodeBlocks.lookup nBlockHeight

def SameSync [WinnerHasher] (payments other : CMasternodePayments) : Prop :=
  ∀ nTipHeight mn_counts nCountNeeded,
    payments.sync nTipHeight mn_counts nCountNeeded = other.sync nTipHeight mn_counts nCountNeeded

def Survives [WinnerHasher] (payments : CMasternodePayments) : Prop :=
  ∃ loaded, Format.payments.read (Format.payments.write payments) = .ok (loaded, []) ∧
    loaded.SameWinners payments ∧ loaded.SameTallies payments ∧ loaded.SameSync payments

def Unlevelled (payments : CMasternodePayments) : Prop :=
  ∀ hash winner, payments.mapMasternodePayeeVotes.lookup hash = some winner →
    winner.payeeLevel = MASTERNODE_UNSPECIFIED

theorem SameWinners.sync [WinnerHasher] {payments other : CMasternodePayments}
    (same : payments.SameWinners other) : payments.SameSync other := by
  intro nTipHeight mn_counts nCountNeeded
  have entries := Codec.sortedEntries_congr BitVec.toNat (fun a b => BitVec.eq_of_toNat_eq) _ _ same
  simp only [CMasternodePayments.sync, entries]

theorem read_write (payments : CMasternodePayments) (typed : payments.Typed)
    (fits : payments.Fits) :
    Format.payments.read (Format.payments.write payments) =
      .ok (Format.payments.back payments, []) := by
  have read := Format.payments.read_fits payments (Format.payments_typed payments typed)
    ((Format.payments_fits payments).mpr fits) []
  rwa [List.append_nil] at read

theorem read_write_unfit (payments : CMasternodePayments) (typed : payments.Typed)
    (unfit : ¬ payments.Fits) :
    ∃ failure, Format.payments.read (Format.payments.write payments) = .error failure := by
  have read := Format.payments.read_unfit payments (Format.payments_typed payments typed)
    (fun fits => unfit ((Format.payments_fits payments).mp fits)) []
  rwa [List.append_nil] at read

theorem sameWinners_back_iff (payments : CMasternodePayments) :
    (Format.payments.back payments).SameWinners payments ↔ payments.Unlevelled := by
  simp only [SameWinners, Format.payments_back_votes, Unlevelled]
  refine forall_congr' fun hash => ?_
  cases payments.mapMasternodePayeeVotes.lookup hash with
  | none => simp
  | some winner =>
      simp only [Option.map_some, Option.some.injEq, forall_eq']
      constructor
      · intro same
        exact (congrArg CMasternodePaymentWinner.payeeLevel same).symm
      · intro level
        rw [Format.forgetLevel, ← level]

theorem Survives.unlevelled [WinnerHasher] {payments : CMasternodePayments}
    (survives : payments.Survives) (typed : payments.Typed) :
    payments.Fits ∧ payments.Unlevelled := by
  obtain ⟨loaded, read, winners, _, _⟩ := survives
  have fits : payments.Fits := by
    by_contra unfit
    obtain ⟨failure, failed⟩ := payments.read_write_unfit typed unfit
    rw [failed] at read
    cases read
  rw [payments.read_write typed fits] at read
  cases read
  exact ⟨fits, (sameWinners_back_iff payments).mp winners⟩

theorem survives_iff [WinnerHasher] (payments : CMasternodePayments) (typed : payments.Typed) :
    payments.Survives ↔ payments.Fits ∧ payments.Unlevelled := by
  refine ⟨fun survives => survives.unlevelled typed, fun ⟨fits, unlevelled⟩ => ?_⟩
  have winners := (sameWinners_back_iff payments).mpr unlevelled
  exact ⟨_, payments.read_write typed fits, winners, Format.payments_back_blocks payments,
    winners.sync⟩

end CMasternodePayments

structure CMasternodeBlockPayees.Within (n : Nat) (block : CMasternodeBlockPayees) : Prop where
  nBlockHeight : Format.Int32 block.nBlockHeight
  vecPayments : block.vecPayments.length ≤ n
  payees : ∀ p ∈ block.vecPayments,
    p.scriptPubKey.length < 256 ^ 8 ∧ p.mnlevel < 256 ^ 4 ∧ 0 ≤ p.nVotes ∧ p.nVotes ≤ n

structure CMasternodePayments.Within (n : Nat) (p : CMasternodePayments) : Prop where
  winnerCount : p.mapMasternodePayeeVotes.entries.length ≤ n
  winners : ∀ hash winner, p.mapMasternodePayeeVotes.lookup hash = some winner → winner.Typed
  blockCount : p.mapMasternodeBlocks.entries.length ≤ n
  blocks : ∀ nBlockHeight block, p.mapMasternodeBlocks.lookup nBlockHeight = some block →
    Format.Int32 nBlockHeight ∧ block.Within n

namespace CMasternodeBlockPayees

theorem Within.mono {n m : Nat} {block : CMasternodeBlockPayees} (within : block.Within n)
    (le : n ≤ m) : block.Within m := by
  refine ⟨within.nBlockHeight, within.vecPayments.trans le, fun p member => ?_⟩
  obtain ⟨script, mnlevel, low, high⟩ := within.payees p member
  exact ⟨script, mnlevel, low, by omega⟩

theorem addPayment_length (payments : List CMasternodePayee) (mnlevel : Nat) (payeeIn : CScript)
    (nIncrement : Int) :
    (addPayment mnlevel payeeIn nIncrement payments).length ≤ payments.length + 1 := by
  induction payments with
  | nil => simp [addPayment]
  | cons p rest ih =>
      simp only [addPayment]
      split
      next => simp
      next => simpa using ih

theorem addPayment_forall (holds : CMasternodePayee → Prop) (payments : List CMasternodePayee)
    (mnlevel : Nat) (payeeIn : CScript) (nIncrement : Int) (new : holds ⟨payeeIn, mnlevel, nIncrement⟩)
    (voted : ∀ p ∈ payments, holds p → holds { p with nVotes := p.nVotes + nIncrement })
    (all : ∀ p ∈ payments, holds p) :
    ∀ p ∈ addPayment mnlevel payeeIn nIncrement payments, holds p := by
  induction payments with
  | nil => simpa [addPayment] using new
  | cons p rest ih =>
      simp only [List.forall_mem_cons] at voted all
      simp only [addPayment]
      split
      next => exact List.forall_mem_cons.mpr ⟨voted.1 all.1, all.2⟩
      next => exact List.forall_mem_cons.mpr ⟨all.1, ih voted.2 all.2⟩

theorem addPayee_within (n : Nat) (block : CMasternodeBlockPayees) (within : block.Within n)
    (mnlevel : Nat) (payeeIn : CScript) (level : mnlevel < 256 ^ 4)
    (short : payeeIn.length < 256 ^ 8) : (block.addPayee mnlevel payeeIn 1).Within (n + 1) := by
  have later := within.mono (Nat.le_succ n)
  refine ⟨within.nBlockHeight, ?_, ?_⟩
  · exact (addPayment_length block.vecPayments mnlevel payeeIn 1).trans
      (Nat.succ_le_succ within.vecPayments)
  · refine addPayment_forall _ block.vecPayments mnlevel payeeIn 1 ⟨short, level, ?_, ?_⟩
      (fun p member _ => ?_) later.payees
    · exact Int.one_nonneg
    · exact Int.ofNat_le.mpr (Nat.succ_le_succ (Nat.zero_le n))
    · obtain ⟨script, mnlevel, low, high⟩ := within.payees p member
      have counted : 0 ≤ p.nVotes + 1 ∧ p.nVotes + 1 ≤ (n + 1 : Nat) := by omega
      exact ⟨script, mnlevel, counted⟩

end CMasternodeBlockPayees

namespace CMasternodePayments

theorem Within.mono {n m : Nat} {payments : CMasternodePayments} (within : payments.Within n)
    (le : n ≤ m) : payments.Within m :=
  ⟨within.winnerCount.trans le, within.winners, within.blockCount.trans le,
    fun nBlockHeight block stored =>
      (within.blocks nBlockHeight block stored).imp_right fun inside => inside.mono le⟩

theorem empty_within (n : Nat) : empty.Within n where
  winnerCount := Nat.zero_le n
  winners := by simp [empty]
  blockCount := Nat.zero_le n
  blocks := by simp [empty]

theorem storeWinner_within [WinnerHasher] (n : Nat) (payments : CMasternodePayments)
    (within : payments.Within n) (winner : CMasternodePaymentWinner) (typed : winner.Typed) :
    (payments.storeWinner winner).Within (n + 1) := by
  have before : (payments.blockPayees winner.nBlockHeight).Within n := by
    unfold blockPayees
    cases stored : payments.mapMasternodeBlocks.lookup winner.nBlockHeight with
    | none => exact ⟨typed.nBlockHeight, Nat.zero_le n, by simp⟩
    | some block => exact (within.blocks _ block stored).2
  have later := within.mono (Nat.le_succ n)
  refine ⟨?_, fun hash other stored => ?_, ?_, fun nBlockHeight block stored => ?_⟩
  · exact (Assoc.insert_length _ _ _).trans (Nat.succ_le_succ within.winnerCount)
  · rw [storeWinner, Assoc.lookup_insert] at stored
    split at stored
    next =>
      cases stored
      exact typed
    next => exact within.winners hash other stored
  · exact (Assoc.insert_length _ _ _).trans (Nat.succ_le_succ within.blockCount)
  · rw [storeWinner, Assoc.lookup_insert] at stored
    split at stored
    next same =>
      cases stored
      exact ⟨same ▸ typed.nBlockHeight, CMasternodeBlockPayees.addPayee_within n _ before _ _
        typed.payeeLevel typed.payee⟩
    next => exact later.blocks nBlockHeight block stored

theorem cleanWinner_within (n : Nat) (ctx : PaymentsContext) (nHeight : Int)
    (payments : CMasternodePayments) (within : payments.Within n) (item : WinnerItem) :
    (cleanWinner ctx nHeight payments item).Within n := by
  unfold cleanWinner
  split
  next =>
    refine ⟨(Assoc.erase_length_le _ _).trans within.winnerCount, fun hash winner stored => ?_,
      (Assoc.erase_length_le _ _).trans within.blockCount, fun nBlockHeight block stored => ?_⟩
    · rw [Assoc.lookup_erase] at stored
      split at stored
      next => cases stored
      next => exact within.winners hash winner stored
    · rw [Assoc.lookup_erase] at stored
      split at stored
      next => cases stored
      next => exact within.blocks nBlockHeight block stored
  next => exact within

theorem cleanPaymentList_within (n : Nat) (ctx : PaymentsContext) (payments : CMasternodePayments)
    (within : payments.Within n) : (payments.cleanPaymentList ctx).Within n := by
  unfold cleanPaymentList
  cases ctx.nTipHeight with
  | none => exact within
  | some nHeight =>
      simp only
      generalize payments.mapMasternodePayeeVotes.entries = items
      induction items generalizing payments with
      | nil => exact within
      | cons item rest ih => exact ih _ (cleanWinner_within n ctx nHeight payments within item)

theorem step_within [WinnerHasher] (n : Nat) (payments next : CMasternodePayments) (op : PaymentsOp)
    (within : payments.Within n)
    (typed : ∀ ctx winner, op = .addWinningMasternode ctx winner → winner.Typed)
    (stepped : payments.step op = some next) : next.Within (n + 1) := by
  have later := within.mono (Nat.le_succ n)
  cases op with
  | addWinningMasternode ctx winner =>
      cases stepped
      simp only [addWinningMasternode]
      split
      next => exact storeWinner_within n payments within winner (typed ctx winner rfl)
      next => exact later
  | cleanPaymentList ctx =>
      cases stepped
      exact cleanPaymentList_within (n + 1) ctx payments later
  | clear =>
      cases stepped
      exact (empty_within 0).mono (Nat.zero_le _)

theorem run_within [WinnerHasher] (n : Nat) (payments final : CMasternodePayments)
    (ops : List PaymentsOp) (within : payments.Within n)
    (typed : ∀ ctx winner, .addWinningMasternode ctx winner ∈ ops → winner.Typed)
    (ran : Machine.run step payments ops = some final) : final.Within (n + ops.length) := by
  induction ops generalizing n payments with
  | nil =>
      cases ran
      exact within
  | cons op rest ih =>
      obtain ⟨next, stepped, rest_ran⟩ := Option.bind_eq_some_iff.mp ran
      have here := step_within n payments next op within
        (fun ctx winner same => typed ctx winner (by simp [same])) stepped
      have last := ih (n + 1) next here
        (fun ctx winner member => typed ctx winner (List.mem_cons_of_mem op member)) rest_ran
      rw [List.length_cons]
      exact last.mono (by omega)

theorem run_typed [WinnerHasher] (final : CMasternodePayments) (ops : List PaymentsOp)
    (typed : ∀ ctx winner, .addWinningMasternode ctx winner ∈ ops → winner.Typed)
    (short : ops.length < 0x80000000) (ran : Machine.run step empty ops = some final) :
    final.Typed := by
  have within := run_within 0 empty final ops (empty_within 0) typed ran
  rw [Nat.zero_add] at within
  have room : 0x80000000 ≤ 256 ^ 8 := by decide
  refine ⟨within.winnerCount.trans_lt (short.trans_le room), within.winners,
    within.blockCount.trans_lt (short.trans_le room), fun nBlockHeight block stored => ?_⟩
  obtain ⟨height, inside⟩ := within.blocks nBlockHeight block stored
  refine ⟨height, inside.nBlockHeight, inside.vecPayments.trans_lt (short.trans_le room),
    fun p member => ?_⟩
  obtain ⟨script, mnlevel, low, high⟩ := inside.payees p member
  exact ⟨script, mnlevel, by omega, by omega⟩

end CMasternodePayments

namespace Restarted

@[reducible] def hasher : WinnerHasher := ⟨fun _ _ out => BitVec.ofNat 256 out.n⟩

def context : PaymentsContext := ⟨fun _ => some 0, some 1000, 10⟩

def winner (payeeLevel : Nat) : CMasternodePaymentWinner :=
  ⟨⟨⟨1, 7⟩, [], 0xffffffff⟩, 995, [0x51], [], payeeLevel⟩

def ops (payeeLevel : Nat) : List PaymentsOp := [.addWinningMasternode context (winner payeeLevel)]

def stored (payeeLevel : Nat) : CMasternodePayments :=
  @CMasternodePayments.storeWinner hasher .empty (winner payeeLevel)

theorem stored_typed (payeeLevel : Nat) (typed : payeeLevel < 256 ^ 4) :
    (stored payeeLevel).Typed := by
  refine @CMasternodePayments.run_typed hasher _ (ops payeeLevel) (fun ctx _ member => ?_)
    (by simp [ops]) rfl
  cases List.mem_singleton.mp member
  exact ⟨by simp [winner], by simp [winner], ⟨by simp [winner], by simp [winner]⟩, typed,
    by simp [winner], by simp [winner], by simp [winner]⟩

theorem stored_fits (payeeLevel : Nat) : (stored payeeLevel).Fits where
  winnerCount := (Assoc.insert_length _ _ _).trans (by decide)
  winners hash other present := by
    simp only [stored, CMasternodePayments.storeWinner, Assoc.lookup_insert] at present
    split at present
    next =>
      cases present
      constructor <;> simp [winner, MAX_SIZE]
    next => cases present
  blockCount := (Assoc.insert_length _ _ _).trans (by decide)
  blocks nBlockHeight block present := by
    simp only [stored, CMasternodePayments.storeWinner, Assoc.lookup_insert] at present
    split at present
    next =>
      cases present
      exact ⟨Nat.succ_le_of_lt (by decide), fun p member => by
        cases List.mem_singleton.mp member
        simp [winner, MAX_SIZE]⟩
    next => cases present

def counts : LevelCounts := masternodeLevels.foldl (fun result l => result.insert l 100) ∅

end Restarted

open Restarted in
theorem unlevelled_survives : @CMasternodePayments.Survives hasher (stored 0) := by
  refine (@CMasternodePayments.survives_iff hasher (stored 0)
    (stored_typed 0 (by decide))).mpr ⟨stored_fits 0, fun hash other present => ?_⟩
  simp only [stored, CMasternodePayments.storeWinner, Assoc.lookup_insert] at present
  split at present
  next =>
    cases present
    rfl
  next => cases present

open Restarted in
theorem restart_forgets_levels :
    ¬ (∀ final, Machine.run (@CMasternodePayments.step hasher) .empty (ops 2) = some final →
        @CMasternodePayments.Survives hasher final) ∧
      ∃ loaded, Format.payments.read (Format.payments.write (stored 2)) = .ok (loaded, []) ∧
        @CMasternodePayments.sync hasher (stored 2) (some 1000) counts 50 = some ([7], 1) ∧
          @CMasternodePayments.sync hasher loaded (some 1000) counts 50 = some ([], 0) := by
  have typed := stored_typed 2 (by decide)
  refine ⟨fun survive => ?_, _, (stored 2).read_write typed (stored_fits 2), ?_, ?_⟩
  · have unlevelled := (@CMasternodePayments.Survives.unlevelled hasher _ (survive (stored 2) rfl)
      typed).2
    exact absurd (unlevelled 7 (winner 2) (by decide +kernel)) (by decide)
  · decide +kernel
  · decide +kernel

end CryptoYen
