import CryptoYen.Consensus.CheckTransaction
import CryptoYen.Library.SubsetSum
import Mathlib.Algebra.Order.BigOperators.Group.List
import Mathlib.Algebra.Order.Group.Int
import Mathlib.Data.List.Sort

set_option autoImplicit false

namespace CryptoYen

namespace Wallet

-- What an int64_t holds of a sum that is not tested against its bounds.
def asAmount (n : Int) : Int := Int.bmod n (2 ^ 64)

theorem asAmount_exact (n : Int) (least : -2 ^ 63 ≤ n) (most : n ≤ maxInt64) : asAmount n = n := by
  rw [maxInt64] at most
  exact Int.bmod_eq_of_le (by omega) (by omega)

class WalletTx (W : Type) where
  tx : W → CTransaction
  -- IsFromMe(ISMINE_ALL)
  isFromMe : W → Bool

structure COutput (W : Type) where
  tx : W
  i : Nat
  nDepth : Int
  fSpendable : Bool
  deriving DecidableEq, Repr

abbrev CoinId (W : Type) := W × Nat

abbrev ValuedCoin (W : Type) := Int × CoinId W

section selection

variable {W : Type} [WalletTx W]

def coinValue (coin : CoinId W) : Int :=
  ((WalletTx.tx coin.1).vout.map CTxOut.nValue).getD coin.2 0

namespace COutput

def coin (output : COutput W) : CoinId W := (output.tx, output.i)

def nValue (output : COutput W) : Int := coinValue output.coin

def valued (output : COutput W) : ValuedCoin W := (output.nValue, output.coin)

end COutput

-- The denominations are filled in nowhere, so any list will do.
def isDenominatedAmount (obfuScationDenominations : List Int) (nInputAmount : Int) : Bool :=
  obfuScationDenominations.contains nInputAmount

def lessThenDenom (obfuScationDenominations : List Int) (out1 out2 : COutput W) : Bool :=
  !isDenominatedAmount obfuScationDenominations out1.nValue &&
    isDenominatedAmount obfuScationDenominations out2.nValue

/-- The outcomes of the shuffle and of the sorts, which leave the order of equals open, and of
insecure_rand in each call of ApproximateBestSubset, repetition and position. -/
structure Choices (W : Type) [WalletTx W] (obfuScationDenominations : List Int) where
  shuffled : List (COutput W) → List (COutput W)
  shuffled_perm : ∀ vCoins, (shuffled vCoins).Perm vCoins
  denominated_last : ∀ vCoins, (shuffled vCoins).Pairwise fun out1 out2 =>
    lessThenDenom obfuScationDenominations out2 out1 = false
  descending : List (ValuedCoin W) → List (ValuedCoin W)
  descending_perm : ∀ vValue, (descending vValue).Perm vValue
  descending_sorted : ∀ vValue, (descending vValue).Pairwise fun coin1 coin2 => coin2.1 ≤ coin1.1
  insecureRand : Nat → Nat → Nat → Bool

structure SubsetSearch where
  nTotal : Int
  vfIncluded : List Bool
  fReachedTarget : Bool
  nBest : Int
  vfBest : List Bool
  deriving DecidableEq, Repr

section approximation

variable (vValue : List Int) (nTargetValue : Int)

def includeCoin (st : SubsetSearch) (i : Nat) : SubsetSearch :=
  let nTotal := st.nTotal + vValue.getD i 0
  let vfIncluded := st.vfIncluded.set i true
  if nTargetValue ≤ nTotal then
    { nTotal := nTotal - vValue.getD i 0
      vfIncluded := vfIncluded.set i false
      fReachedTarget := true
      nBest := if nTotal < st.nBest then nTotal else st.nBest
      vfBest := if nTotal < st.nBest then vfIncluded else st.vfBest }
  else { st with nTotal, vfIncluded }

def searchPass (pick : Nat → SubsetSearch → Bool) (st : SubsetSearch) : SubsetSearch :=
  (List.range vValue.length).foldl
    (fun st i => if pick i st then includeCoin vValue nTargetValue st i else st) st

def searchOnce (bits : Nat → Bool) (nBest : Int) (vfBest : List Bool) : SubsetSearch :=
  let start : SubsetSearch := ⟨0, List.replicate vValue.length false, false, nBest, vfBest⟩
  let first := searchPass vValue nTargetValue (fun i _ => bits i) start
  if first.fReachedTarget then first
  else searchPass vValue nTargetValue (fun i st => !st.vfIncluded.getD i false) first

def searchFrom (bits : Nat → Nat → Bool) : Nat → Nat → Int → List Bool → Int × List Bool
  | 0, _, nBest, vfBest => (nBest, vfBest)
  | left + 1, nRep, nBest, vfBest =>
      if nBest = nTargetValue then (nBest, vfBest)
      else
        let st := searchOnce vValue nTargetValue (bits nRep) nBest vfBest
        searchFrom bits left (nRep + 1) st.nBest st.vfBest

def approximateBestSubset (nTotalLower : Int) (bits : Nat → Nat → Bool) (iterations : Nat) :
    Int × List Bool :=
  searchFrom vValue nTargetValue bits iterations 0 nTotalLower
    (List.replicate vValue.length true)

end approximation

/-- What a pass over the coins collects; coinLowestLarger has a null transaction at first. -/
structure CoinScan (W : Type) where
  vValue : List (ValuedCoin W)
  nTotalLower : Int
  coinLowestLarger : Int × Option (CoinId W)

structure Selection (W : Type) where
  fRet : Bool
  setCoinsRet : List (CoinId W)
  nValueRet : Int
  deriving DecidableEq, Repr

inductive PassResult (W : Type)
  | done (selection : Selection W)
  | nextPass (coinLowestLarger : Int × Option (CoinId W))
  | subset (scan : CoinScan W)

def isEligible (nConfMine nConfTheirs : Int) (output : COutput W) : Bool :=
  output.fSpendable &&
    decide ((if WalletTx.isFromMe output.tx then nConfMine else nConfTheirs) ≤ output.nDepth)

def takeCoin [DecidableEq W] (selection : Selection W) (coin : ValuedCoin W) : Selection W :=
  { selection with
    setCoinsRet :=
      if coin.2 ∈ selection.setCoinsRet then selection.setCoinsRet
      else selection.setCoinsRet ++ [coin.2]
    nValueRet := selection.nValueRet + coin.1 }

def takeCoins [DecidableEq W] (coins : List (ValuedCoin W)) : Selection W :=
  coins.foldl takeCoin ⟨true, [], 0⟩

section passes

variable (obfuScationDenominations : List Int) (nTargetValue nConfMine nConfTheirs : Int)

-- Ends early with a coin of just the target's value.
def scanCoins (tryDenom : Nat) : List (COutput W) → CoinScan W → ValuedCoin W ⊕ CoinScan W
  | [], scan => .inr scan
  | output :: rest, scan =>
      let n := output.nValue
      if isEligible nConfMine nConfTheirs output = false then scanCoins tryDenom rest scan
      else if tryDenom = 0 ∧ isDenominatedAmount obfuScationDenominations n = true then
        scanCoins tryDenom rest scan
      else if n = nTargetValue then .inl output.valued
      else if n < asAmount (nTargetValue + CENT) then
        scanCoins tryDenom rest
          { scan with
            vValue := scan.vValue ++ [output.valued]
            nTotalLower := scan.nTotalLower + n }
      else if n < scan.coinLowestLarger.1 then
        scanCoins tryDenom rest { scan with coinLowestLarger := (n, some output.coin) }
      else scanCoins tryDenom rest scan

def selectPass [DecidableEq W] (vCoins : List (COutput W)) (tryDenom : Nat)
    (coinLowestLarger : Int × Option (CoinId W)) : PassResult W :=
  match scanCoins obfuScationDenominations nTargetValue nConfMine nConfTheirs tryDenom vCoins
      ⟨[], 0, coinLowestLarger⟩ with
  | .inl exact => .done (takeCoins [exact])
  | .inr scan =>
      if scan.nTotalLower = nTargetValue then .done (takeCoins scan.vValue)
      else if scan.nTotalLower < nTargetValue then
        match scan.coinLowestLarger with
        | (_, none) =>
            if tryDenom = 0 then .nextPass scan.coinLowestLarger else .done ⟨false, [], 0⟩
        | (n, some coin) => .done (takeCoins [(n, coin)])
      else .subset scan

def selectSubset [DecidableEq W] (choices : Choices W obfuScationDenominations)
    (scan : CoinScan W) : Selection W :=
  let vValue := choices.descending scan.vValue
  let amounts := vValue.map Prod.fst
  let first :=
    approximateBestSubset amounts nTargetValue scan.nTotalLower (choices.insecureRand 0) 1000
  let best :=
    if first.1 ≠ nTargetValue ∧ asAmount (nTargetValue + CENT) ≤ scan.nTotalLower then
      approximateBestSubset amounts (asAmount (nTargetValue + CENT)) scan.nTotalLower
        (choices.insecureRand 1) 1000
    else first
  match scan.coinLowestLarger with
  | (n, some coin) =>
      if (best.1 ≠ nTargetValue ∧ best.1 < asAmount (nTargetValue + CENT)) ∨ n ≤ best.1 then
        takeCoins [(n, coin)]
      else takeCoins (SubsetSum.selected vValue best.2)
  | (_, none) => takeCoins (SubsetSum.selected vValue best.2)

def selectCoinsMinConf [DecidableEq W] (choices : Choices W obfuScationDenominations)
    (vCoins : List (COutput W)) : Selection W :=
  let vCoins := choices.shuffled vCoins
  let pass := selectPass obfuScationDenominations nTargetValue nConfMine nConfTheirs vCoins
  match pass 0 (maxInt64, none) with
  | .done selection => selection
  | .subset scan => selectSubset obfuScationDenominations nTargetValue choices scan
  | .nextPass coinLowestLarger =>
      match pass 1 coinLowestLarger with
      | .done selection => selection
      | .subset scan => selectSubset obfuScationDenominations nTargetValue choices scan
      | .nextPass _ => ⟨false, [], 0⟩

end passes

end selection

section stable

variable {W : Type} [WalletTx W]

def Choices.stable (obfuScationDenominations : List Int) (insecureRand : Nat → Nat → Nat → Bool) :
    Choices W obfuScationDenominations where
  shuffled vCoins := vCoins.insertionSort fun out1 out2 =>
    lessThenDenom obfuScationDenominations out2 out1 = false
  shuffled_perm vCoins := List.perm_insertionSort _ vCoins
  denominated_last vCoins := by
    have total : Std.Total fun out1 out2 : COutput W =>
        lessThenDenom obfuScationDenominations out2 out1 = false :=
      ⟨fun out1 out2 => by simp only [lessThenDenom]; grind⟩
    have trans : IsTrans (COutput W) fun out1 out2 =>
        lessThenDenom obfuScationDenominations out2 out1 = false :=
      ⟨fun out1 out2 out3 => by simp only [lessThenDenom]; grind⟩
    exact List.pairwise_insertionSort _ vCoins
  descending vValue := vValue.insertionSort fun coin1 coin2 => coin2.1 ≤ coin1.1
  descending_perm vValue := List.perm_insertionSort _ vValue
  descending_sorted vValue := by
    have total : Std.Total fun coin1 coin2 : ValuedCoin W => coin2.1 ≤ coin1.1 :=
      ⟨fun coin1 coin2 => le_total coin2.1 coin1.1⟩
    have trans : IsTrans (ValuedCoin W) fun coin1 coin2 => coin2.1 ≤ coin1.1 :=
      ⟨fun _ _ _ first second => le_trans second first⟩
    exact List.pairwise_insertionSort _ vValue
  insecureRand

end stable

open SubsetSum

section search

variable (vValue : List Int) (nTargetValue : Int)

structure SubsetSearch.Consistent (st : SubsetSearch) : Prop where
  included : st.vfIncluded.length = vValue.length
  total : st.nTotal = selectedSum vValue st.vfIncluded
  best : st.nBest = selectedSum vValue st.vfBest
  enough : nTargetValue ≤ st.nBest

theorem includeCoin_consistent (st : SubsetSearch) (i : Nat)
    (consistent : st.Consistent vValue nTargetValue) (off : st.vfIncluded[i]? = some false) :
    (includeCoin vValue nTargetValue st i).Consistent vValue nTargetValue ∧
      ∀ j, j ≠ i → (includeCoin vValue nTargetValue st i).vfIncluded[j]? = st.vfIncluded[j]? := by
  have inside : i < vValue.length := by
    rw [← consistent.included]
    exact (List.getElem?_eq_some_iff.mp off).1
  have here := List.getElem?_eq_getElem inside
  have value : vValue.getD i 0 = vValue[i] := by
    rw [List.getD_eq_getElem?_getD, here]
    rfl
  have added := selectedSum_set vValue st.vfIncluded i vValue[i] here off
  rw [← consistent.total] at added
  rw [includeCoin, value]
  split
  next reached =>
    rw [set_back st.vfIncluded i off]
    refine ⟨⟨consistent.included, ?_, ?_, ?_⟩, fun j _ => rfl⟩
    · show st.nTotal + vValue[i] - vValue[i] = _
      rw [Int.add_sub_cancel, consistent.total]
    · dsimp only
      split
      · exact added.symm
      · exact consistent.best
    · dsimp only
      split
      · exact reached
      · exact consistent.enough
  next =>
    refine ⟨⟨?_, added.symm, consistent.best, consistent.enough⟩, fun j other => ?_⟩
    · exact (List.length_set ..).trans consistent.included
    · exact List.getElem?_set_ne (Ne.symm other)

theorem searchPass_consistent (pick : Nat → SubsetSearch → Bool) (indices : List Nat)
    (st : SubsetSearch) (consistent : st.Consistent vValue nTargetValue)
    (distinct : indices.Nodup)
    (off : (∀ i ∈ indices, st.vfIncluded[i]? = some false) ∨
      ∀ i ∈ indices, ∀ st' : SubsetSearch, st'.vfIncluded.length = vValue.length →
        pick i st' = true → st'.vfIncluded[i]? = some false) :
    (indices.foldl (fun st i => if pick i st then includeCoin vValue nTargetValue st i else st)
      st).Consistent vValue nTargetValue := by
  induction indices generalizing st with
  | nil => exact consistent
  | cons i indices ih =>
      obtain ⟨fresh, distinct⟩ := List.nodup_cons.mp distinct
      rw [List.foldl_cons]
      by_cases picked : pick i st = true
      · rw [if_pos picked]
        have here : st.vfIncluded[i]? = some false := by
          rcases off with off | off
          · exact off i List.mem_cons_self
          · exact off i List.mem_cons_self st consistent.included picked
        obtain ⟨consistent, others⟩ :=
          includeCoin_consistent vValue nTargetValue st i consistent here
        refine ih _ consistent distinct (off.imp ?_ ?_)
        · intro off j mem
          rw [others j (fun same => fresh (same ▸ mem))]
          exact off j (List.mem_cons_of_mem _ mem)
        · exact fun off j mem => off j (List.mem_cons_of_mem _ mem)
      · rw [if_neg picked]
        refine ih st consistent distinct (off.imp ?_ ?_) <;>
          exact fun off j mem => off j (List.mem_cons_of_mem _ mem)

theorem searchOnce_consistent (bits : Nat → Bool) (nBest : Int) (vfBest : List Bool)
    (best : nBest = selectedSum vValue vfBest) (enough : nTargetValue ≤ nBest) :
    (searchOnce vValue nTargetValue bits nBest vfBest).Consistent vValue nTargetValue := by
  have start : (⟨0, List.replicate vValue.length false, false, nBest, vfBest⟩ :
      SubsetSearch).Consistent vValue nTargetValue :=
    ⟨List.length_replicate, (selectedSum_replicate_false vValue _).symm, best, enough⟩
  have off (i : Nat) (mem : i ∈ List.range vValue.length) :
      (List.replicate vValue.length false)[i]? = some false := by
    rw [List.getElem?_replicate, if_pos (List.mem_range.mp mem)]
  have first := searchPass_consistent vValue nTargetValue (fun i _ => bits i) _ _ start
    List.nodup_range (Or.inl off)
  rw [searchOnce]
  split
  · exact first
  · refine searchPass_consistent vValue nTargetValue _ _ _ first List.nodup_range (Or.inr ?_)
    intro i mem st' length picked
    have inside : i < st'.vfIncluded.length := by
      rw [length]
      exact List.mem_range.mp mem
    rw [List.getD_eq_getElem?_getD, List.getElem?_eq_getElem inside] at picked
    rw [List.getElem?_eq_getElem inside]
    simpa using picked

theorem searchFrom_best (bits : Nat → Nat → Bool) (left nRep : Nat) (nBest : Int)
    (vfBest : List Bool) (best : nBest = selectedSum vValue vfBest) (enough : nTargetValue ≤ nBest) :
    (searchFrom vValue nTargetValue bits left nRep nBest vfBest).1 =
        selectedSum vValue (searchFrom vValue nTargetValue bits left nRep nBest vfBest).2 ∧
      nTargetValue ≤ (searchFrom vValue nTargetValue bits left nRep nBest vfBest).1 := by
  induction left generalizing nRep nBest vfBest with
  | zero => exact ⟨best, enough⟩
  | succ left ih =>
      rw [searchFrom]
      split
      · exact ⟨best, enough⟩
      · have once := searchOnce_consistent vValue nTargetValue (bits nRep) nBest vfBest best enough
        exact ih (nRep + 1) _ _ once.best once.enough

theorem approximateBestSubset_best (nTotalLower : Int) (bits : Nat → Nat → Bool) (iterations : Nat)
    (total : nTotalLower = vValue.sum) (enough : nTargetValue ≤ nTotalLower) :
    (approximateBestSubset vValue nTargetValue nTotalLower bits iterations).1 =
        selectedSum vValue (approximateBestSubset vValue nTargetValue nTotalLower bits iterations).2 ∧
      nTargetValue ≤ (approximateBestSubset vValue nTargetValue nTotalLower bits iterations).1 := by
  refine searchFrom_best vValue nTargetValue bits iterations 0 nTotalLower _ ?_ enough
  rw [selectedSum_replicate_true, total]

end search

section outcome

variable {W : Type}

theorem foldl_takeCoin [DecidableEq W] (coins : List (ValuedCoin W)) (start : Selection W)
    (distinct : (start.setCoinsRet ++ coins.map Prod.snd).Nodup) :
    coins.foldl takeCoin start =
      ⟨start.fRet, start.setCoinsRet ++ coins.map Prod.snd,
        start.nValueRet + (coins.map Prod.fst).sum⟩ := by
  induction coins generalizing start with
  | nil =>
      rw [List.map_nil, List.map_nil, List.append_nil, List.sum_nil, add_zero]
      rfl
  | cons coin coins ih =>
      rw [List.map_cons, List.append_cons] at distinct
      have fresh : coin.2 ∉ start.setCoinsRet := by
        intro mem
        have both := List.nodup_append.mp (distinct.sublist (List.sublist_append_left _ _))
        exact both.2.2 coin.2 mem coin.2 List.mem_cons_self rfl
      have taken : takeCoin start coin =
          ⟨start.fRet, start.setCoinsRet ++ [coin.2], start.nValueRet + coin.1⟩ := by
        rw [takeCoin, if_neg fresh]
      rw [List.foldl_cons, taken, ih _ distinct, List.map_cons, List.map_cons, List.sum_cons,
        add_assoc, ← List.append_cons]

theorem takeCoins_distinct [DecidableEq W] (coins : List (ValuedCoin W))
    (distinct : (coins.map Prod.snd).Nodup) :
    takeCoins coins = ⟨true, coins.map Prod.snd, (coins.map Prod.fst).sum⟩ := by
  rw [takeCoins, foldl_takeCoin coins ⟨true, [], 0⟩ distinct, List.nil_append, zero_add]

variable [WalletTx W] (obfuScationDenominations : List Int)
  (nTargetValue nConfMine nConfTheirs : Int)

def eligibleCoins (vCoins : List (COutput W)) : List (ValuedCoin W) :=
  (vCoins.filter (isEligible nConfMine nConfTheirs)).map COutput.valued

theorem eligibleCoins_append (seen rest : List (COutput W)) :
    eligibleCoins nConfMine nConfTheirs (seen ++ rest) =
      eligibleCoins nConfMine nConfTheirs seen ++ eligibleCoins nConfMine nConfTheirs rest := by
  rw [eligibleCoins, List.filter_append, List.map_append, eligibleCoins, eligibleCoins]

theorem eligibleCoins_perm {vCoins vCoins' : List (COutput W)} (perm : vCoins.Perm vCoins') :
    (eligibleCoins nConfMine nConfTheirs vCoins).Perm
      (eligibleCoins nConfMine nConfTheirs vCoins') :=
  (perm.filter _).map _

structure CoinScan.Collects (tryDenom : Nat) (seen : List (COutput W)) (scan : CoinScan W) :
    Prop where
  collected : scan.vValue.Sublist (eligibleCoins nConfMine nConfTheirs seen)
  total : scan.nTotalLower = (scan.vValue.map Prod.fst).sum
  larger : scan.coinLowestLarger = (maxInt64, none) ∨
    ∃ coin ∈ eligibleCoins nConfMine nConfTheirs seen,
      scan.coinLowestLarger = (coin.1, some coin.2) ∧ nTargetValue + CENT ≤ coin.1
  -- On the second pass only coins of at least the target are left out.
  complete : tryDenom ≠ 0 → (∀ output ∈ seen, output.nValue < maxInt64) →
    scan.coinLowestLarger.2 = none → scan.vValue = eligibleCoins nConfMine nConfTheirs seen

theorem eligibleCoins_one (output : COutput W) :
    eligibleCoins nConfMine nConfTheirs [output] =
      if isEligible nConfMine nConfTheirs output then [output.valued] else [] := by
  rw [eligibleCoins, List.filter_cons]
  split <;> rfl

theorem CoinScan.Collects.skip {tryDenom : Nat} {seen : List (COutput W)} {scan : CoinScan W}
    (collects : scan.Collects nTargetValue nConfMine nConfTheirs tryDenom seen)
    (output : COutput W)
    (why : isEligible nConfMine nConfTheirs output = false ∨ tryDenom = 0 ∨
      scan.coinLowestLarger.2 ≠ none ∨ maxInt64 ≤ output.nValue) :
    scan.Collects nTargetValue nConfMine nConfTheirs tryDenom (seen ++ [output]) := by
  have grown := eligibleCoins_append nConfMine nConfTheirs seen [output]
  refine ⟨?_, collects.total, ?_, ?_⟩
  · rw [grown]
    exact collects.collected.trans (List.sublist_append_left _ _)
  · refine collects.larger.imp_right fun ⟨coin, mem, larger⟩ => ⟨coin, ?_, larger⟩
    rw [grown]
    exact List.mem_append_left _ mem
  · intro second bounded none
    rcases why with why | why | why | why
    · rw [grown, eligibleCoins_one, if_neg (Bool.eq_false_iff.mp why), List.append_nil]
      exact collects.complete second (fun other mem => bounded other (List.mem_append_left _ mem)) none
    · exact absurd why second
    · exact absurd none why
    · exact absurd (bounded output (List.mem_append_right _ List.mem_cons_self)) (not_lt.mpr why)

theorem CoinScan.Collects.lower {tryDenom : Nat} {seen : List (COutput W)} {scan : CoinScan W}
    (collects : scan.Collects nTargetValue nConfMine nConfTheirs tryDenom seen)
    (output : COutput W) (eligible : isEligible nConfMine nConfTheirs output = true) :
    CoinScan.Collects nTargetValue nConfMine nConfTheirs tryDenom (seen ++ [output])
      { scan with
        vValue := scan.vValue ++ [output.valued]
        nTotalLower := scan.nTotalLower + output.nValue } := by
  have grown := eligibleCoins_append nConfMine nConfTheirs seen [output]
  rw [eligibleCoins_one, if_pos eligible] at grown
  refine ⟨?_, ?_, ?_, ?_⟩
  · rw [grown]
    exact collects.collected.append (List.Sublist.refl _)
  · rw [List.map_append, List.sum_append, ← collects.total]
    exact congrArg (scan.nTotalLower + ·) (add_zero output.nValue).symm
  · refine collects.larger.imp_right fun ⟨coin, mem, larger⟩ => ⟨coin, ?_, larger⟩
    rw [grown]
    exact List.mem_append_left _ mem
  · intro second bounded none
    rw [grown, ← collects.complete second
      (fun other mem => bounded other (List.mem_append_left _ mem)) none]

theorem CoinScan.Collects.replace {tryDenom : Nat} {seen : List (COutput W)} {scan : CoinScan W}
    (collects : scan.Collects nTargetValue nConfMine nConfTheirs tryDenom seen)
    (output : COutput W) (eligible : isEligible nConfMine nConfTheirs output = true)
    (large : nTargetValue + CENT ≤ output.nValue) :
    CoinScan.Collects nTargetValue nConfMine nConfTheirs tryDenom (seen ++ [output])
      { scan with coinLowestLarger := (output.nValue, some output.coin) } := by
  have grown := eligibleCoins_append nConfMine nConfTheirs seen [output]
  rw [eligibleCoins_one, if_pos eligible] at grown
  refine ⟨?_, collects.total, Or.inr ⟨output.valued, ?_, rfl, large⟩, ?_⟩
  · rw [grown]
    exact collects.collected.trans (List.sublist_append_left _ _)
  · rw [grown]
    exact List.mem_append_right _ List.mem_cons_self
  · exact fun _ _ none => nomatch none

theorem scanCoins_collects (fits : asAmount (nTargetValue + CENT) = nTargetValue + CENT)
    (tryDenom : Nat) (seen rest : List (COutput W)) (scan : CoinScan W)
    (collects : scan.Collects nTargetValue nConfMine nConfTheirs tryDenom seen) :
    Sum.elim
      (fun coin => coin ∈ eligibleCoins nConfMine nConfTheirs (seen ++ rest) ∧
        coin.1 = nTargetValue)
      (CoinScan.Collects nTargetValue nConfMine nConfTheirs tryDenom (seen ++ rest))
      (scanCoins obfuScationDenominations nTargetValue nConfMine nConfTheirs tryDenom rest
        scan) := by
  induction rest generalizing seen scan with
  | nil =>
      rw [List.append_nil]
      exact collects
  | cons output rest ih =>
      rw [List.append_cons, scanCoins, fits]
      split
      next out => exact ih _ _ (collects.skip _ _ _ output (Or.inl out))
      next eligible =>
        rw [Bool.not_eq_false] at eligible
        split
        next denominated =>
          exact ih _ _ (collects.skip _ _ _ output (Or.inr (Or.inl denominated.1)))
        next =>
          split
          next same =>
            refine ⟨List.mem_map.mpr ⟨output, List.mem_filter.mpr ⟨?_, eligible⟩, rfl⟩, same⟩
            exact List.mem_append_left _ (List.mem_append_right _ List.mem_cons_self)
          next =>
            split
            next => exact ih _ _ (collects.lower _ _ _ output eligible)
            next large =>
              split
              next => exact ih _ _ (collects.replace _ _ _ output eligible (not_lt.mp large))
              next notLower =>
                refine ih _ _ (collects.skip _ _ _ output (Or.inr (Or.inr ?_)))
                rcases collects.larger with larger | ⟨coin, _, larger, _⟩
                · rw [larger] at notLower
                  exact Or.inr (not_lt.mp notLower)
                · rw [larger]
                  exact Or.inl nofun

def Chosen [DecidableEq W] (coins : List (ValuedCoin W)) (selection : Selection W) : Prop :=
  ∃ chosen : List (ValuedCoin W), chosen.Subperm coins ∧ selection = takeCoins chosen ∧
    nTargetValue ≤ (chosen.map Prod.fst).sum

def Settles [DecidableEq W] (vCoins : List (COutput W)) (selection : Selection W) : Prop :=
  Chosen nTargetValue (eligibleCoins nConfMine nConfTheirs vCoins) selection ∨
    selection = ⟨false, [], 0⟩ ∧ ((∀ output ∈ vCoins, output.nValue < maxInt64) →
      ((eligibleCoins nConfMine nConfTheirs vCoins).map Prod.fst).sum < nTargetValue)

omit [WalletTx W] in
theorem chosen_one [DecidableEq W] (coins : List (ValuedCoin W)) (coin : ValuedCoin W)
    (mem : coin ∈ coins) (enough : nTargetValue ≤ coin.1) :
    Chosen nTargetValue coins (takeCoins [coin]) := by
  refine ⟨[coin], List.singleton_subperm_iff.mpr mem, rfl, ?_⟩
  rw [List.map_singleton, List.sum_singleton]
  exact enough

theorem selectPass_settles [DecidableEq W]
    (fits : asAmount (nTargetValue + CENT) = nTargetValue + CENT) (vCoins : List (COutput W))
    (tryDenom : Nat) :
    match selectPass obfuScationDenominations nTargetValue nConfMine nConfTheirs vCoins tryDenom
        (maxInt64, none) with
    | .done selection => Settles nTargetValue nConfMine nConfTheirs vCoins selection
    | .nextPass coinLowestLarger => tryDenom = 0 ∧ coinLowestLarger = (maxInt64, none)
    | .subset scan =>
        scan.Collects nTargetValue nConfMine nConfTheirs tryDenom vCoins ∧
          nTargetValue < scan.nTotalLower := by
  have start : CoinScan.Collects nTargetValue nConfMine nConfTheirs tryDenom ([] : List (COutput W))
      ⟨[], 0, (maxInt64, none)⟩ :=
    ⟨List.Sublist.refl _, rfl, Or.inl rfl, fun _ _ _ => rfl⟩
  have scanned := scanCoins_collects obfuScationDenominations nTargetValue nConfMine nConfTheirs fits
    tryDenom [] vCoins _ start
  rw [List.nil_append] at scanned
  rw [selectPass]
  cases ended : scanCoins obfuScationDenominations nTargetValue nConfMine nConfTheirs tryDenom
      vCoins ⟨[], 0, (maxInt64, none)⟩ with
  | inl coin =>
      rw [ended] at scanned
      exact Or.inl (chosen_one nTargetValue _ coin scanned.1 scanned.2.ge)
  | inr scan =>
      rw [ended] at scanned
      have collects : scan.Collects nTargetValue nConfMine nConfTheirs tryDenom vCoins := scanned
      by_cases same : scan.nTotalLower = nTargetValue
      · simp only [if_pos same]
        refine Or.inl ⟨scan.vValue, collects.collected.subperm, rfl, ?_⟩
        rw [← collects.total, same]
      by_cases less : scan.nTotalLower < nTargetValue
      · simp only [if_neg same, if_pos less]
        rcases collects.larger with larger | ⟨coin, mem, larger, large⟩
        · simp only [larger]
          by_cases first : tryDenom = 0
          · simp only [if_pos first]
            exact ⟨first, trivial⟩
          · simp only [if_neg first]
            refine Or.inr ⟨rfl, fun bounded => ?_⟩
            rw [← collects.complete first bounded (congrArg Prod.snd larger), ← collects.total]
            exact less
        · simp only [larger]
          refine Or.inl (chosen_one nTargetValue _ coin mem ?_)
          exact le_trans (le_add_of_nonneg_right (by decide)) large
      · simp only [if_neg same, if_neg less]
        exact ⟨collects, lt_of_le_of_ne (not_lt.mp less) (Ne.symm same)⟩

theorem selectSubset_chosen [DecidableEq W]
    (fits : asAmount (nTargetValue + CENT) = nTargetValue + CENT)
    (choices : Choices W obfuScationDenominations) (vCoins : List (COutput W)) (tryDenom : Nat) (scan : CoinScan W)
    (collects : scan.Collects nTargetValue nConfMine nConfTheirs tryDenom vCoins)
    (more : nTargetValue < scan.nTotalLower) :
    Chosen nTargetValue (eligibleCoins nConfMine nConfTheirs vCoins)
      (selectSubset obfuScationDenominations nTargetValue choices scan) := by
  let vValue := choices.descending scan.vValue
  let amounts := vValue.map Prod.fst
  have perm : vValue.Perm scan.vValue := choices.descending_perm scan.vValue
  have total : scan.nTotalLower = amounts.sum := by
    rw [collects.total]
    exact (perm.map Prod.fst).sum_eq.symm
  have small : nTargetValue ≤ nTargetValue + CENT := le_add_of_nonneg_right (by decide)
  have subset (flags : List Bool) (nBest : Int) (best : nBest = selectedSum amounts flags)
      (enough : nTargetValue ≤ nBest) :
      Chosen nTargetValue (eligibleCoins nConfMine nConfTheirs vCoins)
        (takeCoins (selected vValue flags)) := by
    refine ⟨selected vValue flags, ?_, rfl, ?_⟩
    · have part : (selected vValue flags).Subperm scan.vValue :=
        (selected_sublist vValue flags).subperm.trans perm.subperm
      exact part.trans collects.collected.subperm
    · rw [← selectedSum_selected, ← best]
      exact enough
  have first := approximateBestSubset_best amounts nTargetValue scan.nTotalLower
    (choices.insecureRand 0) 1000 total more.le
  have found : ∃ nBest flags, nBest = selectedSum amounts flags ∧ nTargetValue ≤ nBest ∧
      (if (approximateBestSubset amounts nTargetValue scan.nTotalLower
          (choices.insecureRand 0) 1000).1 ≠ nTargetValue ∧
          nTargetValue + CENT ≤ scan.nTotalLower then
        approximateBestSubset amounts (nTargetValue + CENT) scan.nTotalLower
          (choices.insecureRand 1) 1000
      else approximateBestSubset amounts nTargetValue scan.nTotalLower
        (choices.insecureRand 0) 1000) = (nBest, flags) := by
    split
    next again =>
      have second := approximateBestSubset_best amounts (nTargetValue + CENT) scan.nTotalLower
        (choices.insecureRand 1) 1000 total again.2
      exact ⟨_, _, second.1, le_trans small second.2, rfl⟩
    next => exact ⟨_, _, first.1, first.2, rfl⟩
  obtain ⟨nBest, flags, best, enough, same⟩ := found
  rw [selectSubset, fits]
  rw [same]
  rcases collects.larger with larger | ⟨coin, mem, larger, large⟩
  · rw [larger]
    exact subset flags nBest best enough
  · rw [larger]
    dsimp only
    split
    · exact chosen_one nTargetValue _ coin mem (le_trans small large)
    · exact subset flags nBest best enough

theorem selectCoinsMinConf_settles [DecidableEq W]
    (fits : asAmount (nTargetValue + CENT) = nTargetValue + CENT)
    (choices : Choices W obfuScationDenominations) (vCoins : List (COutput W)) :
    Settles nTargetValue nConfMine nConfTheirs (choices.shuffled vCoins)
      (selectCoinsMinConf obfuScationDenominations nTargetValue nConfMine nConfTheirs choices
        vCoins) := by
  have pass (tryDenom : Nat) := selectPass_settles obfuScationDenominations nTargetValue nConfMine
    nConfTheirs fits (choices.shuffled vCoins) tryDenom
  have zeroth := pass 0
  rw [selectCoinsMinConf]
  split
  next selection ended =>
    rw [ended] at zeroth
    exact zeroth
  next scan ended =>
    rw [ended] at zeroth
    exact Or.inl (selectSubset_chosen _ _ _ _ fits choices _ 0 scan zeroth.1 zeroth.2)
  next coinLowestLarger ended =>
    rw [ended] at zeroth
    have first := pass 1
    rw [zeroth.2]
    split
    next selection ended =>
      rw [ended] at first
      exact first
    next scan ended =>
      rw [ended] at first
      exact Or.inl (selectSubset_chosen _ _ _ _ fits choices _ 1 scan first.1 first.2)
    next ended =>
      rw [ended] at first
      exact absurd first.1 one_ne_zero

structure Selection.Found (outputs : List (COutput W)) (selection : Selection W) : Prop where
  fRet : selection.fRet = true
  chosen : selection.setCoinsRet.Subperm (outputs.map COutput.coin)
  nodup : selection.setCoinsRet.Nodup
  nValueRet : selection.nValueRet = (selection.setCoinsRet.map coinValue).sum
  enough : nTargetValue ≤ selection.nValueRet

theorem selected_of_chosen [DecidableEq W] (choices : Choices W obfuScationDenominations)
    (vCoins : List (COutput W)) (distinct : (vCoins.map COutput.coin).Nodup)
    (selection : Selection W)
    (chosen : Chosen nTargetValue
      (eligibleCoins nConfMine nConfTheirs (choices.shuffled vCoins)) selection) :
    selection.Found nTargetValue (vCoins.filter (isEligible nConfMine nConfTheirs)) := by
  obtain ⟨coins, part, rfl, enough⟩ := chosen
  have perm := eligibleCoins_perm nConfMine nConfTheirs (choices.shuffled_perm vCoins)
  obtain ⟨ordered, order, sublist⟩ := part.trans perm.subperm
  have ids : (ordered.map Prod.snd).Sublist
      ((vCoins.filter (isEligible nConfMine nConfTheirs)).map COutput.coin) := by
    have mapped := sublist.map Prod.snd
    rw [eligibleCoins, List.map_map] at mapped
    exact mapped
  have once : (coins.map Prod.snd).Nodup := by
    refine ((order.map Prod.snd).nodup_iff).mp (ids.nodup ?_)
    exact distinct.sublist (List.filter_sublist.map COutput.coin)
  have values : (coins.map Prod.fst).sum = ((coins.map Prod.snd).map coinValue).sum := by
    rw [List.map_map]
    refine congrArg List.sum (List.map_congr_left fun coin mem => ?_)
    obtain ⟨output, _, rfl⟩ := List.mem_map.mp (sublist.subset (order.symm.subset mem))
    rfl
  rw [takeCoins_distinct coins once]
  exact ⟨rfl, (order.map Prod.snd).symm.subperm.trans ids.subperm, once, values, enough⟩

theorem nMaxMoneyOut_lt :
    ∀ params ∈ CChainParams.networks, params.nMaxMoneyOut < maxInt64 := by
  decide

/-- Coins are found exactly when the eligible ones are enough, and then they are eligible, once
each, and worth what is returned. -/
theorem selectCoinsMinConf_exact [DecidableEq W] (choices : Choices W obfuScationDenominations)
    (vCoins : List (COutput W)) (positive : 0 < nTargetValue)
    (target : nTargetValue + CENT ≤ maxInt64) (distinct : (vCoins.map COutput.coin).Nodup)
    (nonnegative : ∀ output ∈ vCoins, 0 ≤ output.nValue)
    (money : ∃ params ∈ CChainParams.networks,
      moneyRange params (vCoins.map COutput.nValue).sum = true) :
    let eligible := vCoins.filter (isEligible nConfMine nConfTheirs)
    let selection := selectCoinsMinConf obfuScationDenominations nTargetValue nConfMine nConfTheirs
      choices vCoins
    (selection.fRet = true ↔ nTargetValue ≤ (eligible.map COutput.nValue).sum) ∧
      (selection.fRet = true →
        selection.setCoinsRet ⊆ eligible.map COutput.coin ∧ selection.setCoinsRet.Nodup ∧
          selection.nValueRet = (selection.setCoinsRet.map coinValue).sum ∧
            nTargetValue ≤ selection.nValueRet) := by
  intro eligible selection
  have bounded (output) (mem : output ∈ vCoins) : output.nValue < maxInt64 := by
    obtain ⟨params, network, inRange⟩ := money
    rw [moneyRange, Bool.and_eq_true, decide_eq_true_eq, decide_eq_true_eq] at inRange
    have part : output.nValue ≤ (vCoins.map COutput.nValue).sum := by
      refine List.single_le_sum ?_ _ (List.mem_map_of_mem mem)
      intro value valueMem
      obtain ⟨other, otherMem, rfl⟩ := List.mem_map.mp valueMem
      exact nonnegative other otherMem
    have limit := nMaxMoneyOut_lt params network
    omega
  have fits := asAmount_exact (nTargetValue + CENT) (by rw [CENT]; omega) target
  have settled := selectCoinsMinConf_settles obfuScationDenominations nTargetValue nConfMine
    nConfTheirs fits choices vCoins
  rcases settled with chosen | ⟨same, less⟩
  · have found := selected_of_chosen obfuScationDenominations nTargetValue nConfMine nConfTheirs
      choices vCoins distinct selection chosen
    have covered : (selection.setCoinsRet.map coinValue).sum ≤
        (eligible.map COutput.nValue).sum := by
      obtain ⟨ordered, order, sublist⟩ := found.chosen
      rw [← (order.map coinValue).sum_eq]
      have values := sublist.map coinValue
      rw [List.map_map] at values
      refine values.sum_le_sum ?_
      intro value valueMem
      obtain ⟨output, mem, rfl⟩ := List.mem_map.mp valueMem
      exact nonnegative output (List.mem_filter.mp mem).1
    refine ⟨⟨fun _ => ?_, fun _ => found.fRet⟩, fun _ => ⟨found.chosen.subset, found.nodup,
      found.nValueRet, found.enough⟩⟩
    rw [← found.nValueRet] at covered
    exact found.enough.trans covered
  · have refused : selection = ⟨false, [], 0⟩ := same
    have perm := eligibleCoins_perm nConfMine nConfTheirs (choices.shuffled_perm vCoins)
    have values : (eligibleCoins nConfMine nConfTheirs vCoins).map Prod.fst =
        eligible.map COutput.nValue := List.map_map
    have short := less fun output mem => bounded output ((choices.shuffled_perm vCoins).subset mem)
    rw [(perm.map Prod.fst).sum_eq, values] at short
    rw [refused]
    refine ⟨⟨fun found => ?_, fun enough => absurd enough (not_le.mpr short)⟩, fun found => ?_⟩
    · cases found
    · cases found

end outcome

@[reducible] def ownTransactions : WalletTx CTransaction := ⟨id, fun _ => true⟩

def plainTx (nValue : Int) : CTransaction := ⟨1, [], [⟨nValue, []⟩], 0⟩

theorem selectCoinsMinConf_exact_pair :
    letI := ownTransactions
    3 ≤ (selectCoinsMinConf [] 3 1 6 (Choices.stable [] fun _ _ _ => true)
      [⟨plainTx 1, 0, 6, true⟩, ⟨plainTx 2, 0, 6, true⟩] : Selection CTransaction).nValueRet := by
  let _ := ownTransactions
  have exact := selectCoinsMinConf_exact [] 3 1 6 (Choices.stable [] fun _ _ _ => true)
    [⟨plainTx 1, 0, 6, true⟩, ⟨plainTx 2, 0, 6, true⟩] (by decide) (by decide) (by decide)
    (by decide) ⟨CChainParams.mainParams, List.mem_cons_self, by decide⟩
  exact (exact.2 (exact.1.mpr (by decide))).2.2.2

/-- Within CENT of the greatest target any other coin is taken for one of more than the target. -/
theorem selectCoinsMinConf_wraps :
    letI := ownTransactions
    let vCoins : List (COutput CTransaction) := [⟨plainTx 1, 0, 6, true⟩]
    let selection := selectCoinsMinConf [] maxInt64 1 6 (Choices.stable [] fun _ _ _ => true) vCoins
    (vCoins.map COutput.coin).Nodup ∧ (∀ output ∈ vCoins, 0 ≤ output.nValue) ∧
      moneyRange CChainParams.mainParams (vCoins.map COutput.nValue).sum = true ∧
        selection.fRet = true ∧
          ¬ maxInt64 ≤ ((vCoins.filter (isEligible 1 6)).map COutput.nValue).sum ∧
            selection.nValueRet = 1 := by
  decide

end Wallet

end CryptoYen
