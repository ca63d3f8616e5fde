import CryptoYen.Masternodes.Restart
import CryptoYen.Masternodes.WinnerMessages

set_option autoImplicit false

namespace CryptoYen

namespace ElectionContext

variable (ctx : ElectionContext) (man : CMasternodeMan) (mnlevel : Nat)

def levelCount : Nat :=
  man.vMasternodes.countP fun mn =>
    ctx.level mn == mnlevel && decide (ctx.activeProtocol ≤ mn.protocolVersion) && ctx.isEnabled mn

theorem levelCount_le : ctx.levelCount man mnlevel ≤ ctx.countEnabled man mnlevel := by
  refine List.countP_mono_left fun mn _ counted => ?_
  simp only [Bool.and_eq_true] at counted ⊢
  exact ⟨⟨by simp [counted.1.1], counted.1.2⟩, counted.2⟩

theorem countEnabled_level (specified : mnlevel ≠ MASTERNODE_UNSPECIFIED) :
    ctx.countEnabled man mnlevel = ctx.levelCount man mnlevel := by
  have narrow : (mnlevel == MASTERNODE_UNSPECIFIED) = false := by simpa using specified
  simp [countEnabled, levelCount, narrow]

theorem lookup_counted (masternodes : List CMasternode) (result : LevelCounts) :
    ((masternodes.foldl
      (fun result mn => result.insert (ctx.level mn) ((result.lookup (ctx.level mn)).getD 0 + 1))
      result).lookup mnlevel).getD 0 =
      (result.lookup mnlevel).getD 0 + (masternodes.countP fun mn => ctx.level mn == mnlevel) := by
  induction masternodes generalizing result with
  | nil => simp
  | cons mn rest ih =>
      rw [List.foldl_cons, ih, Assoc.lookup_insert, List.countP_cons]
      by_cases same : mnlevel = ctx.level mn
      next =>
        subst same
        simp only [if_true, Option.getD_some, beq_self_eq_true]
        omega
      next => simp [same, Ne.symm same]

theorem countEnabledByLevels_getD :
    ((ctx.countEnabledByLevels man).lookup mnlevel).getD 0 = ctx.levelCount man mnlevel := by
  have none : ((masternodeLevels.foldl (fun result l => result.insert l 0)
      (∅ : LevelCounts)).lookup mnlevel).getD 0 = 0 := by
    simp only [masternodeLevels, List.foldl_cons, List.foldl_nil, Assoc.lookup_insert]
    split_ifs <;> rfl
  rw [countEnabledByLevels, lookup_counted, none, levelCount, List.countP_filter]
  simp [Bool.and_assoc]

end ElectionContext

namespace CMasternodePayments

variable (ctx : ElectionContext) (man : CMasternodeMan)

def offeredFrom (nHeight : Int) (mnlevel : Nat) : Int :=
  nHeight - 125 * (ctx.levelCount man mnlevel / 100 : Nat)

theorem blocksBack_enough (mnlevel : Nat) (nCountNeeded : Int)
    (enough : 5 * (ctx.levelCount man mnlevel : Int) ≤ 4 * nCountNeeded) :
    blocksBack (ctx.countEnabledByLevels man) nCountNeeded mnlevel =
      125 * (ctx.levelCount man mnlevel / 100 : Nat) := by
  have counted := ctx.countEnabledByLevels_getD man mnlevel
  rw [blocksBack]
  cases known : (ctx.countEnabledByLevels man).lookup mnlevel with
  | none =>
      rw [known, Option.getD_none] at counted
      simp only
      omega
  | some count =>
      rw [known, Option.getD_some] at counted
      subst counted
      simp only [Int.tdiv_eq_ediv_of_nonneg (Int.natCast_nonneg _)]
      omega

theorem nFirstBlock_eq_offeredFrom (handler : WinnerContext) (nHeight : Int) (mnlevel : Nat)
    (counts : handler.countEnabled mnlevel = ctx.countEnabled man mnlevel)
    (specified : mnlevel ≠ MASTERNODE_UNSPECIFIED) (hundreds : 100 ∣ ctx.levelCount man mnlevel) :
    handler.nFirstBlock nHeight mnlevel = offeredFrom ctx man nHeight mnlevel := by
  obtain ⟨k, same⟩ := hundreds
  have whole : 4 * nHeight - 5 * ((100 * k : Nat) : Int) = (nHeight - 125 * k) * 4 := by omega
  rw [WinnerContext.nFirstBlock, offeredFrom, counts, ctx.countEnabled_level man mnlevel specified,
    same, whole, Int.mul_tdiv_cancel _ (by decide)]
  omega

def WinnersKeyed [WinnerHasher] (payments : CMasternodePayments) : Prop :=
  ∀ hash winner, payments.mapMasternodePayeeVotes.lookup hash = some winner → winner.getHash = hash

/-- Sync offers the stored winners, as far as a peer with this tip and these masternodes gives them a
level, exactly when they are in the range of its handler. -/
def OffersAccepted [WinnerHasher] (payments : CMasternodePayments) (handler : WinnerContext)
    (nHeight nCountNeeded : Int) : Prop :=
  ∃ offered number,
    payments.sync (some nHeight) (ctx.countEnabledByLevels man) nCountNeeded =
        some (offered, number) ∧
      ∀ hash winner mnlevel, payments.mapMasternodePayeeVotes.lookup hash = some winner →
        handler.findPayee winner.payee = some mnlevel →
          (hash ∈ offered ↔ handler.outOfRange nHeight winner mnlevel = false)

def BetweenStarts (handler : WinnerContext) (nHeight : Int) (winner : CMasternodePaymentWinner)
    (mnlevel : Nat) : Prop :=
  (handler.nFirstBlock nHeight mnlevel ≤ winner.nBlockHeight ∧
      winner.nBlockHeight < offeredFrom ctx man nHeight winner.payeeLevel) ∨
    (winner.payeeLevel ≠ mnlevel ∧
      offeredFrom ctx man nHeight winner.payeeLevel ≤ winner.nBlockHeight ∧
        winner.nBlockHeight < handler.nFirstBlock nHeight mnlevel)

theorem nFirstBlock_le (handler : WinnerContext) (nHeight : Int) (mnlevel : Nat) :
    handler.nFirstBlock nHeight mnlevel ≤ nHeight := by
  rw [WinnerContext.nFirstBlock]
  by_cases positive : 0 ≤ 4 * nHeight - 5 * (handler.countEnabled mnlevel : Int)
  next =>
    rw [Int.tdiv_eq_ediv_of_nonneg positive]
    omega
  next =>
    rw [← Int.neg_neg (4 * nHeight - _), Int.neg_tdiv, Int.tdiv_eq_ediv_of_nonneg (by omega)]
    omega

theorem nFirstBlock_le_offeredFrom (handler : WinnerContext) (nHeight : Int) (mnlevel : Nat)
    (counts : handler.countEnabled mnlevel = ctx.countEnabled man mnlevel) :
    handler.nFirstBlock nHeight mnlevel ≤ offeredFrom ctx man nHeight mnlevel := by
  have fewer := ctx.levelCount_le man mnlevel
  rw [WinnerContext.nFirstBlock, offeredFrom, counts]
  by_cases positive : 0 ≤ 4 * nHeight - 5 * (ctx.countEnabled man mnlevel : Int)
  next =>
    rw [Int.tdiv_eq_ediv_of_nonneg positive]
    omega
  next =>
    rw [← Int.neg_neg (4 * nHeight - _), Int.neg_tdiv, Int.tdiv_eq_ediv_of_nonneg (by omega)]
    omega

theorem storeWinner_winnersKeyed [WinnerHasher] (payments : CMasternodePayments)
    (winner : CMasternodePaymentWinner) (keyed : payments.WinnersKeyed) :
    (payments.storeWinner winner).WinnersKeyed := by
  intro hash other present
  simp only [storeWinner, Assoc.lookup_insert] at present
  split at present
  next same =>
    cases present
    exact same.symm
  next => exact keyed hash other present

theorem cleanWinner_winnersKeyed [WinnerHasher] (context : PaymentsContext) (nHeight : Int)
    (payments : CMasternodePayments) (item : WinnerItem) (keyed : payments.WinnersKeyed) :
    (cleanWinner context nHeight payments item).WinnersKeyed := by
  simp only [cleanWinner]
  split
  next =>
    intro hash winner present
    rw [Assoc.lookup_erase] at present
    split at present
    next => cases present
    next => exact keyed hash winner present
  next => exact keyed

theorem run_winnersKeyed [WinnerHasher] (ops : List PaymentsOp) (final : CMasternodePayments)
    (ran : Machine.run step empty ops = some final) : final.WinnersKeyed :=
  run_preserves WinnersKeyed (fun _ _ present => by cases present) storeWinner_winnersKeyed
    cleanWinner_winnersKeyed ops final ran

theorem mem_offered [WinnerHasher] (payments : CMasternodePayments) (keyed : payments.WinnersKeyed)
    (mn_counts : LevelCounts) (nHeight nCountNeeded : Int) (hash : Uint256)
    (winner : CMasternodePaymentWinner)
    (stored : payments.mapMasternodePayeeVotes.lookup hash = some winner) :
    hash ∈ ((Codec.sortedEntries BitVec.toNat payments.mapMasternodePayeeVotes).filter
        fun vote => pushes mn_counts nHeight nCountNeeded vote.2).map (fun vote => vote.2.getHash) ↔
      pushes mn_counts nHeight nCountNeeded winner = true := by
  simp only [List.mem_map, List.mem_filter, Prod.exists, Codec.mem_sortedEntries]
  constructor
  next =>
    intro ⟨key, other, ⟨there, pushed⟩, same⟩
    rw [keyed key other there] at same
    subst same
    rw [stored] at there
    cases there
    exact pushed
  next => exact fun pushed => ⟨hash, winner, ⟨stored, pushed⟩, keyed hash winner stored⟩

theorem pushes_iff (nHeight nCountNeeded : Int) (winner : CMasternodePaymentWinner)
    (enough : 5 * (ctx.levelCount man winner.payeeLevel : Int) ≤ 4 * nCountNeeded) :
    pushes (ctx.countEnabledByLevels man) nHeight nCountNeeded winner = true ↔
      offeredFrom ctx man nHeight winner.payeeLevel ≤ winner.nBlockHeight ∧
        winner.nBlockHeight ≤ nHeight + 20 := by
  rw [pushes, blocksBack_enough ctx man winner.payeeLevel nCountNeeded enough, offeredFrom]
  simp only [Bool.and_eq_true, decide_eq_true_eq]

theorem sameWindow_iff (handler : WinnerContext) (nHeight : Int) (winner : CMasternodePaymentWinner)
    (mnlevel : Nat) (counts : handler.countEnabled = ctx.countEnabled man) :
    ((offeredFrom ctx man nHeight winner.payeeLevel ≤ winner.nBlockHeight ∧
        winner.nBlockHeight ≤ nHeight + 20) ↔
      handler.outOfRange nHeight winner mnlevel = false) ↔
    ¬ BetweenStarts ctx man handler nHeight winner mnlevel := by
  have low := nFirstBlock_le handler nHeight mnlevel
  have back : offeredFrom ctx man nHeight winner.payeeLevel ≤ nHeight := by
    rw [offeredFrom]
    omega
  have oneSided : winner.payeeLevel = mnlevel →
      handler.nFirstBlock nHeight mnlevel ≤ offeredFrom ctx man nHeight winner.payeeLevel := by
    intro level
    rw [level]
    exact nFirstBlock_le_offeredFrom ctx man handler nHeight mnlevel (congrFun counts mnlevel)
  simp only [BetweenStarts, WinnerContext.outOfRange, Bool.or_eq_false_iff, decide_eq_false_iff_not]
  by_cases level : winner.payeeLevel = mnlevel
  next =>
    have ordered := oneSided level
    simp only [level, ne_eq, not_true, false_and, or_false] at *
    omega
  next =>
    simp only [level, ne_eq, not_false_iff, true_and]
    omega

theorem offersAccepted_iff [WinnerHasher] (payments : CMasternodePayments)
    (keyed : payments.WinnersKeyed) (handler : WinnerContext) (nHeight nCountNeeded : Int)
    (counts : handler.countEnabled = ctx.countEnabled man)
    (enough : ∀ mnlevel, 5 * (ctx.levelCount man mnlevel : Int) ≤ 4 * nCountNeeded) :
    payments.OffersAccepted ctx man handler nHeight nCountNeeded ↔
      ∀ hash winner mnlevel, payments.mapMasternodePayeeVotes.lookup hash = some winner →
        handler.findPayee winner.payee = some mnlevel →
          ¬ BetweenStarts ctx man handler nHeight winner mnlevel := by
  have window : ∀ hash winner mnlevel, payments.mapMasternodePayeeVotes.lookup hash = some winner →
      ((hash ∈ ((Codec.sortedEntries BitVec.toNat payments.mapMasternodePayeeVotes).filter fun vote =>
          pushes (ctx.countEnabledByLevels man) nHeight nCountNeeded vote.2).map
            (fun vote => vote.2.getHash) ↔
        handler.outOfRange nHeight winner mnlevel = false) ↔
      ¬ BetweenStarts ctx man handler nHeight winner mnlevel) := by
    intro hash winner mnlevel stored
    rw [mem_offered payments keyed _ nHeight nCountNeeded hash winner stored,
      pushes_iff ctx man nHeight nCountNeeded winner (enough winner.payeeLevel)]
    exact sameWindow_iff ctx man handler nHeight winner mnlevel counts
  constructor
  next =>
    intro ⟨offered, number, synced, same⟩ hash winner mnlevel stored level
    rw [sync, Option.map_some, Option.some.injEq, Prod.mk.injEq] at synced
    have offers := same hash winner mnlevel stored level
    rw [← synced.1] at offers
    exact (window hash winner mnlevel stored).mp offers
  next =>
    intro apart
    refine ⟨_, _, rfl, fun hash winner mnlevel stored level => ?_⟩
    exact (window hash winner mnlevel stored).mpr (apart hash winner mnlevel stored level)

end CMasternodePayments

namespace SmallNetwork

def man : CMasternodeMan where
  vMasternodes := (List.range 5).map fun n => ⟨⟨⟨2, n⟩, [], 0xffffffff⟩, 70000, 0⟩
  distinct := by decide

def ctx : ElectionContext where
  getBlockHash := fun _ => some 0
  nAdjustedTime := 100000
  activeProtocol := 70000
  deposit := fun _ => 80 * COIN
  isEnabled := fun _ => true
  isScheduled := fun _ _ => false
  getMasternodeInputAge := fun _ => 100
  secondsSincePayment := fun _ => 1000

def handler : WinnerContext :=
  { ForgedWinner.context with
    nTipHeight := some 1000
    countEnabled := ctx.countEnabled man }

def stored (nBlockHeight : Int) : CMasternodePayments :=
  @CMasternodePayments.storeWinner Restarted.hasher .empty
    { Restarted.winner 1 with nBlockHeight := nBlockHeight }

theorem stored_keyed (nBlockHeight : Int) :
    @CMasternodePayments.WinnersKeyed Restarted.hasher (stored nBlockHeight) :=
  @CMasternodePayments.run_winnersKeyed Restarted.hasher
    [.addWinningMasternode Restarted.context
      { Restarted.winner 1 with nBlockHeight := nBlockHeight }] _ rfl

end SmallNetwork

open SmallNetwork in
theorem aheadWinner_offered :
    @CMasternodePayments.OffersAccepted ctx man Restarted.hasher (stored 1003) handler 1000 7 := by
  refine (@CMasternodePayments.offersAccepted_iff ctx man Restarted.hasher (stored 1003)
    (stored_keyed 1003) handler 1000 7 rfl (fun mnlevel => ?_)).mpr ?_
  · have few : ctx.levelCount man mnlevel ≤ 5 := List.countP_le_length
    omega
  · intro hash winner mnlevel present _ between
    simp only [stored, CMasternodePayments.storeWinner, Assoc.lookup_insert] at present
    split at present
    next =>
      cases present
      have first := CMasternodePayments.nFirstBlock_le handler 1000 mnlevel
      simp only [CMasternodePayments.BetweenStarts, CMasternodePayments.offeredFrom] at between
      omega
    next => cases present

open SmallNetwork in
theorem recentWinner_withheld :
    ¬ @CMasternodePayments.OffersAccepted ctx man Restarted.hasher (stored 995) handler 1000 7 := by
  intro ⟨offered, number, synced, same⟩
  have known : (stored 995).mapMasternodePayeeVotes.lookup 7 = some (Restarted.winner 1) := by
    decide +kernel
  have withheld : @CMasternodePayments.sync Restarted.hasher (stored 995) (some 1000)
      (ctx.countEnabledByLevels man) 7 = some ([], 0) := by
    decide +kernel
  have accepted := (same 7 (Restarted.winner 1) 1 known rfl).mpr (by decide +kernel)
  rw [withheld] at synced
  cases synced
  cases accepted

end CryptoYen
