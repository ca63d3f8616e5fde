import CryptoYen.Masternodes.Elections

set_option autoImplicit false

namespace CryptoYen

namespace CMasternodeMan

theorem vin_inj (man : CMasternodeMan) (mn : CMasternode) (member : mn ∈ man.vMasternodes)
    (other : CMasternode) (listed : other ∈ man.vMasternodes)
    (same : mn.vin.prevout = other.vin.prevout) : mn = other :=
  List.inj_on_of_nodup_map man.distinct member listed same

theorem nodup (man : CMasternodeMan) : man.vMasternodes.Nodup := man.distinct.of_map

theorem find_listed (man : CMasternodeMan) (mn : CMasternode) (member : mn ∈ man.vMasternodes) :
    man.find mn.vin = some mn := by
  cases found : man.find mn.vin with
  | none =>
      have unknown := List.find?_eq_none.mp found mn member
      simp at unknown
  | some other =>
      have same := List.find?_some found
      simp only [beq_iff_eq] at same
      rw [man.vin_inj other (List.mem_of_find?_eq_some found) mn member same]

theorem map_vin_inj (man : CMasternodeMan) (first second : Option CMasternode)
    (here : ∀ mn, first = some mn → mn ∈ man.vMasternodes)
    (there : ∀ mn, second = some mn → mn ∈ man.vMasternodes) :
    first.map CMasternode.vin = second.map CMasternode.vin ↔ first = second := by
  refine ⟨fun same => ?_, fun same => by rw [same]⟩
  cases first with
  | none => simpa [eq_comm] using same
  | some mn =>
      obtain ⟨other, rfl, vins⟩ := Option.map_eq_some_iff.mp same.symm
      rw [man.vin_inj mn (here mn rfl) other (there other rfl) (by rw [vins])]

def Reordered (man other : CMasternodeMan) : Prop := other.vMasternodes.Perm man.vMasternodes

def reorder (man : CMasternodeMan) (vMasternodes : List CMasternode)
    (perm : vMasternodes.Perm man.vMasternodes) : CMasternodeMan :=
  ⟨vMasternodes, (perm.map _).nodup_iff.mpr man.distinct⟩

theorem forall_reordered (man : CMasternodeMan) (holds : List CMasternode → Prop) :
    (∀ other : CMasternodeMan, man.Reordered other → holds other.vMasternodes) ↔
      ∀ vMasternodes : List CMasternode, vMasternodes.Perm man.vMasternodes → holds vMasternodes :=
  ⟨fun all vMasternodes perm => all (man.reorder vMasternodes perm) perm,
    fun all other perm => all other.vMasternodes perm⟩

end CMasternodeMan

namespace ElectionContext

open CMasternodeMan Election

variable [ScoreHasher] (ctx : ElectionContext) (man : CMasternodeMan)

omit [ScoreHasher] in
theorem entries_vin_inj (chosen : CMasternode → Bool) (key : CMasternode → Int) (a b : ScoredVin)
    (a_listed : a ∈ (man.vMasternodes.filter chosen).map fun mn => (key mn, mn.vin))
    (b_listed : b ∈ (man.vMasternodes.filter chosen).map fun mn => (key mn, mn.vin))
    (same : a.2.prevout = b.2.prevout) : a = b := by
  obtain ⟨mn, member, rfl⟩ := List.mem_map.mp a_listed
  obtain ⟨other, listed, rfl⟩ := List.mem_map.mp b_listed
  rw [man.vin_inj mn (List.mem_of_mem_filter member) other (List.mem_of_mem_filter listed) same]

omit [ScoreHasher] in
theorem entries_nodup (chosen : CMasternode → Bool) (key : CMasternode → Int) :
    ((man.vMasternodes.filter chosen).map fun mn => (key mn, mn.vin)).Nodup := by
  refine List.Nodup.map_on ?_ (man.nodup.filter chosen)
  intro mn member other listed same
  have vins : mn.vin = other.vin := congrArg Prod.snd same
  exact man.vin_inj mn (List.mem_of_mem_filter member) other (List.mem_of_mem_filter listed)
    (by rw [vins])

section rank

variable (vin : CTxIn) (nBlockHeight minProtocol : Int) (fOnlyActive : Bool)

def RankOrderFree : Prop :=
  ∀ sort, SortsDown Prod.fst sort → ∀ other : CMasternodeMan, man.Reordered other →
    ctx.getMasternodeRank sort other vin nBlockHeight minProtocol fOnlyActive =
      ctx.getMasternodeRank sort man vin nBlockHeight minProtocol fOnlyActive

-- The masternode that is asked for shares its score with no other that is ranked.
def RankSettled : Prop :=
  ctx.getBlockHash nBlockHeight = none ∨
    ∀ mn ∈ man.vMasternodes, ctx.ranked minProtocol fOnlyActive mn = true →
      mn.vin.prevout = vin.prevout →
      ∀ other ∈ man.vMasternodes, ctx.ranked minProtocol fOnlyActive other = true →
        ctx.compactScore other.vin nBlockHeight = ctx.compactScore mn.vin nBlockHeight → other = mn

theorem rankOrderFree_iff :
    ctx.RankOrderFree man vin nBlockHeight minProtocol fOnlyActive ↔
      ctx.RankSettled man vin nBlockHeight minProtocol fOnlyActive := by
  cases known : ctx.getBlockHash nBlockHeight with
  | none => simp [RankOrderFree, RankSettled, getMasternodeRank, known]
  | some hash =>
      let named (s : ScoredVin) : Bool := s.2.prevout == vin.prevout
      let rank (found : Option Nat) : Int := found.elim (-1) fun index => index + 1
      have rank_inj (a b : Option Nat) : rank a = rank b ↔ a = b := by
        cases a <;> cases b <;> simp [rank] <;> omega
      have ranked (sort : List ScoredVin → List ScoredVin) (other : CMasternodeMan) :
          ctx.getMasternodeRank sort other vin nBlockHeight minProtocol fOnlyActive =
            rank ((sort (ctx.masternodeScores other nBlockHeight minProtocol fOnlyActive)).findIdx?
              named) := by
        simp only [getMasternodeRank, known, rank, named]
        cases (sort _).findIdx? _ <;> rfl
      let entries := ctx.masternodeScores man nBlockHeight minProtocol fOnlyActive
      have free : ctx.RankOrderFree man vin nBlockHeight minProtocol fOnlyActive ↔
          ∀ first second, Arranged Prod.fst entries first → Arranged Prod.fst entries second →
            first.findIdx? named = second.findIdx? named := by
        refine Iff.trans ?_ (forall_sort_entries_iff Prod.fst (ctx.ranked minProtocol fOnlyActive)
          (fun mn => (ctx.compactScore mn.vin nBlockHeight, mn.vin)) (List.findIdx? named)
          man.vMasternodes)
        refine forall₂_congr fun sort _ => ?_
        simp only [ranked]
        refine Iff.trans ?_ (man.forall_reordered fun vMasternodes => _)
        exact forall₂_congr fun other _ => rank_inj _ _
      have unique : ∀ a ∈ entries, ∀ b ∈ entries, named a = true → named b = true → a = b := by
        intro a a_listed b b_listed here there
        refine entries_vin_inj man _ _ a b a_listed b_listed ?_
        rw [beq_iff_eq.mp here, beq_iff_eq.mp there]
      rw [free, rank_free_iff Prod.fst named entries (entries_nodup man _ _) unique]
      simp only [RankSettled, known, reduceCtorEq, false_or, entries, masternodeScores,
        List.forall_mem_map, List.mem_filter, and_imp, named, beq_iff_eq, Prod.mk.injEq]
      refine forall₄_congr fun mn member _ _ => forall₄_congr fun other listed _ tie => ?_
      refine ⟨fun same => ?_, fun same => by simp [same]⟩
      exact man.vin_inj other listed mn member (by rw [same.2])

end rank

section current

variable (mnlevel : Nat) (nBlockHeight minProtocol : Int)

def CurrentOrderFree : Prop :=
  ∀ other : CMasternodeMan, man.Reordered other →
    (ctx.getCurrentMasterNode other mnlevel nBlockHeight minProtocol).map CMasternode.vin =
      (ctx.getCurrentMasterNode man mnlevel nBlockHeight minProtocol).map CMasternode.vin

-- One masternode alone has the greatest score above zero.
def CurrentSettled : Prop :=
  ∀ mn ∈ man.vMasternodes, ∀ other ∈ man.vMasternodes,
    ctx.electable mnlevel minProtocol mn = true → ctx.electable mnlevel minProtocol other = true →
    0 < ctx.compactScore mn.vin nBlockHeight →
    ctx.compactScore mn.vin nBlockHeight = ctx.compactScore other.vin nBlockHeight →
    (∀ third ∈ man.vMasternodes, ctx.electable mnlevel minProtocol third = true →
      ctx.compactScore third.vin nBlockHeight ≤ ctx.compactScore mn.vin nBlockHeight) →
    mn = other

theorem scanWinner_best (score : Int) (winner : Option CMasternode) (vMasternodes : List CMasternode) :
    ctx.scanWinner nBlockHeight score winner vMasternodes =
      best (fun mn => ctx.compactScore mn.vin nBlockHeight) score winner vMasternodes := by
  induction vMasternodes generalizing score winner with
  | nil => rfl
  | cons mn rest ih => simp only [scanWinner, best, ih]

theorem currentOrderFree_iff :
    ctx.CurrentOrderFree man mnlevel nBlockHeight minProtocol ↔
      ctx.CurrentSettled man mnlevel nBlockHeight minProtocol := by
  let score (mn : CMasternode) : Int := ctx.compactScore mn.vin nBlockHeight
  let members := man.vMasternodes.filter (ctx.electable mnlevel minProtocol)
  have listed (vMasternodes : List CMasternode) (perm : vMasternodes.Perm members) (mn : CMasternode)
      (won : best score 0 none vMasternodes = some mn) : mn ∈ man.vMasternodes := by
    rcases best_cases score 0 none vMasternodes with ⟨same, _⟩ | ⟨_, w, _, split, _, won'⟩
    · rw [same] at won
      cases won
    · rw [won'] at won
      cases won
      exact List.mem_of_mem_filter (perm.subset (by simp [split]))
  have free : ctx.CurrentOrderFree man mnlevel nBlockHeight minProtocol ↔
      ∀ other, other.Perm members → best score 0 none other = best score 0 none members := by
    simp only [CurrentOrderFree, getCurrentMasterNode, scanWinner_best]
    constructor
    · intro free other perm
      rw [← List.map_id members] at perm
      obtain ⟨moved, moved_perm, filtered⟩ := exists_perm_filter_map _ id man.vMasternodes other perm
      rw [List.map_id] at filtered perm
      have same := free (man.reorder moved moved_perm) moved_perm
      rw [reorder, filtered] at same
      exact (man.map_vin_inj _ _ (listed other perm) (listed members (List.Perm.refl _))).mp same
    · intro free other perm
      exact congrArg _ (free _ (List.Perm.filter _ perm))
  rw [free, best_free_iff]
  simp only [CurrentSettled, members, List.mem_filter, and_imp, Election.Top, score]
  constructor
  · intro unique mn member other known electable electable' above tie greatest
    exact unique mn member electable other known electable' above greatest (tie ▸ above)
      fun third third_listed third_electable => tie ▸ greatest third third_listed third_electable
  · intro unique mn member electable other known electable' above greatest above' greatest'
    refine unique mn member other known electable electable' above ?_ greatest
    exact le_antisymm (greatest' mn member electable) (greatest other known electable')

end current

section next

variable (nBlockHeight : Int) (mnlevel : Nat) (fFilterSigTime : Bool)

def NextOrderFree : Prop :=
  ∀ sort, SortsDown Prod.fst sort → ∀ other : CMasternodeMan, man.Reordered other →
    (ctx.getNextMasternodeInQueueForPayment sort other nBlockHeight mnlevel fFilterSigTime).1.map
        CMasternode.vin =
      (ctx.getNextMasternodeInQueueForPayment sort man nBlockHeight mnlevel fFilterSigTime).1.map
        CMasternode.vin

def queue : List ScoredVin :=
  ctx.masternodeLastPaid man nBlockHeight mnlevel
    (fFilterSigTime && !ctx.ignoresSigTime man nBlockHeight mnlevel fFilterSigTime)

def oldestTenth : Nat := max 1 (ctx.countEnabled man mnlevel / 10)

def paymentScore (s : ScoredVin) : Nat := (ctx.calculateScore s.2 (nBlockHeight - 100)).toNat

def NextSettled : Prop :=
  Settled Prod.fst (ctx.paymentScore nBlockHeight) 0
    (ctx.queue man nBlockHeight mnlevel fFilterSigTime) (ctx.oldestTenth man mnlevel)

theorem payOldest_best (nTenthNetwork nCountTenth : Nat) (nHigh : Uint256)
    (pBestMasternode : Option CMasternode) (winner : Option ScoredVin)
    (same : pBestMasternode.map CMasternode.vin = winner.map Prod.snd) (entries : List ScoredVin)
    (listed : ∀ s ∈ entries, ∃ mn ∈ man.vMasternodes, mn.vin = s.2) :
    (ctx.payOldest man nBlockHeight nTenthNetwork nCountTenth nHigh pBestMasternode entries).map
        CMasternode.vin =
      (best (ctx.paymentScore nBlockHeight) nHigh.toNat winner
        (entries.take (max 1 (nTenthNetwork - nCountTenth)))).map Prod.snd := by
  induction entries generalizing nCountTenth nHigh pBestMasternode winner with
  | nil => simpa [payOldest, best] using same
  | cons s rest ih =>
      obtain ⟨mn, member, here⟩ := listed s List.mem_cons_self
      have found : man.find s.2 = some mn := here ▸ man.find_listed mn member
      have count : max 1 (nTenthNetwork - nCountTenth) =
          max 1 (nTenthNetwork - nCountTenth) - 1 + 1 := by omega
      have score : ctx.paymentScore nBlockHeight s =
          (ctx.calculateScore mn.vin (nBlockHeight - 100)).toNat := by rw [paymentScore, here]
      have tail : ∀ t ∈ rest, ∃ mn ∈ man.vMasternodes, mn.vin = t.2 := fun t inside =>
        listed t (List.mem_cons_of_mem s inside)
      rw [payOldest, found, count, List.take_succ_cons, best, score]
      simp only
      by_cases done : nTenthNetwork ≤ nCountTenth + 1
      · have last : max 1 (nTenthNetwork - nCountTenth) - 1 = 0 := by omega
        rw [if_pos done, last, List.take_zero]
        by_cases above : nHigh < ctx.calculateScore mn.vin (nBlockHeight - 100)
        · rw [if_pos above, if_pos (BitVec.lt_def.mp above)]
          simp [best, here]
        · rw [if_neg above, if_neg fun lt => above (BitVec.lt_def.mpr lt)]
          exact same
      · have next : max 1 (nTenthNetwork - nCountTenth) - 1 =
            max 1 (nTenthNetwork - (nCountTenth + 1)) := by omega
        rw [if_neg done, next]
        by_cases above : nHigh < ctx.calculateScore mn.vin (nBlockHeight - 100)
        · rw [if_pos above, if_pos above, if_pos (BitVec.lt_def.mp above)]
          exact ih _ _ _ (some s) (by simp [here]) tail
        · rw [if_neg above, if_neg above, if_neg fun lt => above (BitVec.lt_def.mpr lt)]
          exact ih _ _ _ winner same tail

omit [ScoreHasher] in
theorem countEnabled_reordered (other : CMasternodeMan) (perm : man.Reordered other) :
    ctx.countEnabled other mnlevel = ctx.countEnabled man mnlevel :=
  List.Perm.countP_eq _ perm

omit [ScoreHasher] in
theorem queued_reordered (other : CMasternodeMan) (perm : man.Reordered other) (filters : Bool) :
    ctx.queued other nBlockHeight mnlevel filters = ctx.queued man nBlockHeight mnlevel filters := by
  funext mn
  simp only [queued, ctx.countEnabled_reordered man mnlevel other perm]

omit [ScoreHasher] in
theorem ignoresSigTime_reordered (other : CMasternodeMan) (perm : man.Reordered other) :
    ctx.ignoresSigTime other nBlockHeight mnlevel fFilterSigTime =
      ctx.ignoresSigTime man nBlockHeight mnlevel fFilterSigTime := by
  have count : (ctx.masternodeLastPaid other nBlockHeight mnlevel fFilterSigTime).length =
      (ctx.masternodeLastPaid man nBlockHeight mnlevel fFilterSigTime).length := by
    simp only [masternodeLastPaid, List.length_map,
      ctx.queued_reordered man nBlockHeight mnlevel other perm]
    exact (List.Perm.filter _ perm).length_eq
  rw [ignoresSigTime, ignoresSigTime, count, ctx.countEnabled_reordered man mnlevel other perm]

def queueWinner (arrangement : List ScoredVin) : Option ScoredVin :=
  best (ctx.paymentScore nBlockHeight) 0 none (arrangement.take (ctx.oldestTenth man mnlevel))

theorem getNext_reordered (sort : List ScoredVin → List ScoredVin)
    (sorts : SortsDown Prod.fst sort) (other : CMasternodeMan) (perm : man.Reordered other) :
    (ctx.getNextMasternodeInQueueForPayment sort other nBlockHeight mnlevel fFilterSigTime).1.map
        CMasternode.vin =
      (ctx.queueWinner man nBlockHeight mnlevel (sort ((other.vMasternodes.filter
        (ctx.queued man nBlockHeight mnlevel (fFilterSigTime &&
          !ctx.ignoresSigTime man nBlockHeight mnlevel fFilterSigTime))).map fun mn =>
            (ctx.secondsSincePayment mn, mn.vin)))).map Prod.snd := by
  simp only [getNextMasternodeInQueueForPayment, payQueue,
    ctx.ignoresSigTime_reordered man nBlockHeight mnlevel fFilterSigTime other perm, masternodeLastPaid,
    ctx.queued_reordered man nBlockHeight mnlevel other perm,
    ctx.countEnabled_reordered man mnlevel other perm]
  refine ctx.payOldest_best other nBlockHeight _ 0 0 none none rfl _ fun s inside => ?_
  obtain ⟨mn, member, rfl⟩ := List.mem_map.mp ((sorts _).perm.subset inside)
  exact ⟨mn, List.mem_of_mem_filter member, rfl⟩

theorem nextOrderFree_iff :
    ctx.NextOrderFree man nBlockHeight mnlevel fFilterSigTime ↔
      ctx.NextSettled man nBlockHeight mnlevel fFilterSigTime := by
  let entries := ctx.queue man nBlockHeight mnlevel fFilterSigTime
  let winner := ctx.queueWinner man nBlockHeight mnlevel
  have listed (arrangement : List ScoredVin) (arranged : Arranged Prod.fst entries arrangement)
      (s : ScoredVin) (won : winner arrangement = some s) : s ∈ entries := by
    rcases best_cases (ctx.paymentScore nBlockHeight) 0 none
        (arrangement.take (ctx.oldestTenth man mnlevel)) with ⟨same, _⟩ | ⟨_, w, _, split, _, won'⟩
    · rw [show winner arrangement = none from same] at won
      cases won
    · rw [show winner arrangement = some w from won'] at won
      cases won
      exact arranged.perm.subset (List.mem_of_mem_take (by rw [split]; simp))
  have free : ctx.NextOrderFree man nBlockHeight mnlevel fFilterSigTime ↔
      ∀ first second, Arranged Prod.fst entries first → Arranged Prod.fst entries second →
        (winner first).map Prod.snd = (winner second).map Prod.snd := by
    refine Iff.trans ?_ (forall_sort_entries_iff Prod.fst (ctx.queued man nBlockHeight mnlevel
      (fFilterSigTime && !ctx.ignoresSigTime man nBlockHeight mnlevel fFilterSigTime))
      (fun mn => (ctx.secondsSincePayment mn, mn.vin)) (fun L => (winner L).map Prod.snd)
      man.vMasternodes)
    refine forall₂_congr fun sort sorts => ?_
    refine Iff.trans ?_ (man.forall_reordered fun vMasternodes => _)
    refine forall₂_congr fun other perm => ?_
    rw [ctx.getNext_reordered man nBlockHeight mnlevel fFilterSigTime sort sorts other perm,
      ctx.getNext_reordered man nBlockHeight mnlevel fFilterSigTime sort sorts man (List.Perm.refl _)]
  have distinct : entries.Nodup := entries_nodup man _ _
  refine free.trans (Iff.trans ?_ (best_take_iff distinct))
  refine forall₄_congr fun first second here there => ⟨fun same => ?_, fun same => by
    rw [show winner first = winner second from same]⟩
  -- the vin tells the entries of the queue apart
  change winner first = winner second
  cases won : winner first with
  | none => rw [won] at same; simpa [eq_comm] using same
  | some s =>
      rw [won] at same
      obtain ⟨t, won', vins⟩ := Option.map_eq_some_iff.mp same.symm
      rw [won', entries_vin_inj man _ _ s t (listed first here s won) (listed second there t won')
        (by rw [vins])]

end next

theorem elections_orderFree_iff (vin : CTxIn) (nBlockHeight minProtocol : Int) (mnlevel : Nat)
    (fOnlyActive fFilterSigTime : Bool) :
    (ctx.RankOrderFree man vin nBlockHeight minProtocol fOnlyActive ↔
      ctx.RankSettled man vin nBlockHeight minProtocol fOnlyActive) ∧
    (ctx.CurrentOrderFree man mnlevel nBlockHeight minProtocol ↔
      ctx.CurrentSettled man mnlevel nBlockHeight minProtocol) ∧
    (ctx.NextOrderFree man nBlockHeight mnlevel fFilterSigTime ↔
      ctx.NextSettled man nBlockHeight mnlevel fFilterSigTime) :=
  ⟨ctx.rankOrderFree_iff man vin nBlockHeight minProtocol fOnlyActive,
    ctx.currentOrderFree_iff man mnlevel nBlockHeight minProtocol,
    ctx.nextOrderFree_iff man nBlockHeight mnlevel fFilterSigTime⟩

end ElectionContext

namespace Tied

abbrev hasher : ScoreHasher := ⟨id, fun hash _ => hash + 1⟩

def vin (n : Nat) : CTxIn := ⟨⟨7, n⟩, [], 0xffffffff⟩

def masternode (n : Nat) : CMasternode := ⟨vin n, 70000, 0⟩

def man : CMasternodeMan := ⟨[masternode 0, masternode 1], by decide⟩

def reversed : CMasternodeMan := ⟨[masternode 1, masternode 0], by decide⟩

theorem reordered : man.Reordered reversed := List.Perm.swap _ _ _

def ctx : ElectionContext where
  getBlockHash := fun _ => some 5
  nAdjustedTime := 1613150297
  activeProtocol := 70000
  deposit := fun _ => 1000 * COIN
  isEnabled := fun _ => true
  isScheduled := fun _ _ => false
  getMasternodeInputAge := fun _ => 600
  secondsSincePayment := fun _ => 3600

end Tied

open Tied in
theorem tied_order_matters :
    ¬ @ElectionContext.RankOrderFree hasher ctx man (vin 0) 900 70000 true ∧
      ¬ @ElectionContext.CurrentOrderFree hasher ctx man 2 900 70000 ∧
        ¬ @ElectionContext.NextOrderFree hasher ctx man 900 2 true := by
  refine ⟨fun free => ?_, fun free => ?_, fun free => ?_⟩
  · exact absurd (free _ (Election.insertion_sortsDown _) reversed reordered) (by decide +kernel)
  · exact absurd (free reversed reordered) (by decide +kernel)
  · exact absurd (free _ (Election.insertion_sortsDown _) reversed reordered) (by decide +kernel)

end CryptoYen
