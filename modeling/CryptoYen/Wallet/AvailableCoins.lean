import CryptoYen.Script.Standard
import CryptoYen.Wallet.CoinSelection

set_option autoImplicit false

namespace CryptoYen

namespace Wallet

inductive IsMineType
  | no | watchOnly | multisig | spendable
  deriving DecidableEq, Repr

abbrev IsMineFilter := BitVec 8

def IsMineType.bits : IsMineType → IsMineFilter
  | no => 0
  | watchOnly => 1
  | multisig => 2
  | spendable => 4

def ISMINE_SPENDABLE : IsMineFilter := IsMineType.spendable.bits
def ISMINE_MULTISIG : IsMineFilter := IsMineType.multisig.bits
def ISMINE_WATCH_ONLY : IsMineFilter := IsMineType.watchOnly.bits

def isChange [ScriptCrypto] (isMine : CScript → IsMineType) (mapAddressBook : List CTxDestination)
    (txout : CTxOut) : Bool :=
  isMine txout.scriptPubKey != .no &&
    match extractDestination txout.scriptPubKey with
    | none => true
    | some address => !mapAddressBook.contains address

inductive AvailableCoinsType
  | allCoins | onlyDenominated | onlyNot10000IfMN | onlyNondenominatedNot10000IfMN | only10000
  | stakableCoins
  deriving DecidableEq, Repr

structure CCoinControl where
  destChange : CTxDestination
  fSplitBlock : Bool
  nSplitBlock : Int
  fAllowOtherInputs : Bool
  setSelected : List COutPoint
  deriving DecidableEq, Repr

namespace CCoinControl

def null : CCoinControl := ⟨.noDestination, false, 1, false, []⟩

def hasSelected (coinControl : CCoinControl) : Bool := !coinControl.setSelected.isEmpty

def isSelected (coinControl : CCoinControl) (hash : Uint256) (n : Nat) : Bool :=
  coinControl.setSelected.contains ⟨hash, n⟩

end CCoinControl

-- Filled in nowhere.
def obfuScationDenominations : List Int := []

structure WalletView (W : Type) where
  mapWallet : List (Uint256 × W)
  separate : (mapWallet.map Prod.snd).Nodup
  checkFinalTx : W → Bool
  isTrusted : W → Bool
  getBlocksToMaturity : W → Int
  -- With or without the bonus for SwiftTX (enableIX).
  getDepthInMainChain : W → Bool → Int
  inMempool : W → Bool
  isMine : CScript → IsMineType
  isSpent : Uint256 → Nat → Bool
  isLockedCoin : Uint256 → Nat → Bool
  getInputObfuscationRounds : COutPoint → Int
  nObfuscationRounds : Int
  fMasterNode : Bool
  bSpendZeroConfChange : Bool

def isCollateral (nValue : Int) : Bool :=
  nValue == 80 * COIN || nValue == 1000 * COIN || nValue == 4000 * COIN || nValue == 25000 * COIN

section available

variable {W : Type} [WalletTx W] (view : WalletView W)

def isFound (nCoinType : AvailableCoinsType) (nValue : Int) : Bool :=
  match nCoinType with
  | .onlyNot10000IfMN => !(view.fMasterNode && isCollateral nValue)
  | .only10000 => isCollateral nValue
  | _ => true

def availableOutput (coinControl : Option CCoinControl) (fIncludeZeroValue : Bool)
    (nCoinType : AvailableCoinsType) (nWatchonlyConfig : Nat) (wtxid : Uint256) (pcoin : W)
    (nDepth : Int) (txout : CTxOut) (i : Nat) : Option (COutput W) :=
  let mine := view.isMine txout.scriptPubKey
  if isFound view nCoinType txout.nValue = false then none
  else if view.isSpent wtxid i then none
  else if mine = .no then none
  else if (mine = .multisig ∨ mine = .spendable) ∧ nWatchonlyConfig = 2 then none
  else if mine = .watchOnly ∧ nWatchonlyConfig = 1 then none
  else if view.isLockedCoin wtxid i = true ∧ nCoinType ≠ .only10000 then none
  else if txout.nValue ≤ 0 ∧ fIncludeZeroValue = false then none
  else if coinControl.any fun control =>
    control.hasSelected && !control.fAllowOtherInputs && !control.isSelected wtxid i then none
  else
    some ⟨pcoin, i, nDepth,
      mine.bits &&& ISMINE_SPENDABLE != 0 || mine.bits &&& ISMINE_MULTISIG != 0⟩

def isConsidered (fOnlyConfirmed fUseIX : Bool) (pcoin : W) : Bool :=
  let tx := WalletTx.tx pcoin
  let nDepth := view.getDepthInMainChain pcoin false
  view.checkFinalTx pcoin && (!fOnlyConfirmed || view.isTrusted pcoin) &&
    !((tx.isCoinBase || tx.isCoinStake) && decide (0 < view.getBlocksToMaturity pcoin)) &&
    !(fUseIX && decide (nDepth < 6)) && !(nDepth == 0 && !view.inMempool pcoin)

def availableCoins (fOnlyConfirmed : Bool) (coinControl : Option CCoinControl)
    (fIncludeZeroValue : Bool) (nCoinType : AvailableCoinsType) (fUseIX : Bool)
    (nWatchonlyConfig : Nat) : List (COutput W) :=
  view.mapWallet.flatMap fun (wtxid, pcoin) =>
    if isConsidered view fOnlyConfirmed fUseIX pcoin then
      (WalletTx.tx pcoin).vout.zipIdx.filterMap fun (txout, i) =>
        availableOutput view coinControl fIncludeZeroValue nCoinType nWatchonlyConfig wtxid pcoin
          (view.getDepthInMainChain pcoin false) txout i
    else []

section selectCoins

variable [TxHasher] [DecidableEq W]

def COutput.outpoint (output : COutput W) : COutPoint :=
  ⟨(WalletTx.tx output.tx).getHash, output.i⟩

def isAnonymized (output : COutput W) : Bool :=
  decide (view.nObfuscationRounds ≤ view.getInputObfuscationRounds output.outpoint)

-- In the target's comparison 0.1 * COIN is a double, with this value.
def takeDenominated (nTargetValue v : Int) (selection : Selection W) (output : COutput W) :
    Selection W :=
  if output.nValue = v ∧ selection.nValueRet + output.nValue < nTargetValue + 10000000 + 100 ∧
      isAnonymized view output = true then
    takeCoin selection output.valued
  else selection

def selectCoins (choices : Nat → Choices W obfuScationDenominations) (nTargetValue : Int)
    (coinControl : Option CCoinControl) (coin_type : AvailableCoinsType) (useIX : Bool) :
    Selection W :=
  let vCoins := availableCoins view true coinControl false coin_type useIX 1
  let reached (selection : Selection W) : Selection W :=
    { selection with fRet := decide (nTargetValue ≤ selection.nValueRet) }
  -- coin control -> return all selected outputs
  if coinControl.any CCoinControl.hasSelected then
    reached (takeCoins ((vCoins.filter fun output =>
      output.fSpendable && (coin_type != .onlyDenominated || isAnonymized view output)).map
        COutput.valued))
  else if coin_type = .onlyDenominated then
    reached (obfuScationDenominations.foldl
      (fun selection v => vCoins.foldl (takeDenominated view nTargetValue v) selection)
      ⟨true, [], 0⟩)
  else
    let minConf (nConfMine nConfTheirs : Int) (call : Nat) :=
      selectCoinsMinConf obfuScationDenominations nTargetValue nConfMine nConfTheirs
        (choices call) vCoins
    if (minConf 1 6 0).fRet then minConf 1 6 0
    else if (minConf 1 1 1).fRet then minConf 1 1 1
    else if view.bSpendZeroConfChange then minConf 0 1 2
    else minConf 1 1 1

end selectCoins

omit [WalletTx W] in
theorem availableOutput_coin (coinControl : Option CCoinControl) (fIncludeZeroValue : Bool)
    (nCoinType : AvailableCoinsType) (nWatchonlyConfig : Nat) (wtxid : Uint256) (pcoin : W)
    (nDepth : Int) (txout : CTxOut) (i : Nat) (output : COutput W)
    (available : availableOutput view coinControl fIncludeZeroValue nCoinType nWatchonlyConfig
      wtxid pcoin nDepth txout i = some output) :
    output.coin = (pcoin, i) := by
  simp only [availableOutput, Option.ite_none_left_eq_some] at available
  obtain ⟨_, _, _, _, _, _, _, _, here⟩ := available
  rw [← Option.some.inj here]
  rfl

omit [WalletTx W] in
theorem availableOutput_positive (coinControl : Option CCoinControl) (nCoinType : AvailableCoinsType)
    (nWatchonlyConfig : Nat) (wtxid : Uint256) (pcoin : W) (nDepth : Int) (txout : CTxOut) (i : Nat)
    (output : COutput W)
    (available : availableOutput view coinControl false nCoinType nWatchonlyConfig wtxid pcoin nDepth
      txout i = some output) :
    0 < txout.nValue := by
  simp only [availableOutput, Option.ite_none_left_eq_some] at available
  obtain ⟨_, _, _, _, _, _, worthless, _⟩ := available
  simpa using worthless

theorem availableCoins_listed (fOnlyConfirmed : Bool) (coinControl : Option CCoinControl)
    (fIncludeZeroValue : Bool) (nCoinType : AvailableCoinsType) (fUseIX : Bool)
    (nWatchonlyConfig : Nat) (output : COutput W)
    (listed : output ∈ availableCoins view fOnlyConfirmed coinControl fIncludeZeroValue nCoinType
      fUseIX nWatchonlyConfig) :
    ∃ entry ∈ view.mapWallet, ∃ txout i, (WalletTx.tx entry.2).vout[i]? = some txout ∧
      availableOutput view coinControl fIncludeZeroValue nCoinType nWatchonlyConfig entry.1 entry.2
        (view.getDepthInMainChain entry.2 false) txout i = some output := by
  obtain ⟨⟨wtxid, pcoin⟩, member, here⟩ := List.mem_flatMap.mp listed
  dsimp only at here
  split at here
  · obtain ⟨⟨txout, i⟩, inside, available⟩ := List.mem_filterMap.mp here
    exact ⟨(wtxid, pcoin), member, txout, i, List.mem_zipIdx_iff_getElem?.mp inside, available⟩
  · cases here

theorem availableCoins_positive (fOnlyConfirmed : Bool) (coinControl : Option CCoinControl)
    (nCoinType : AvailableCoinsType) (fUseIX : Bool) (nWatchonlyConfig : Nat) (output : COutput W)
    (listed : output ∈ availableCoins view fOnlyConfirmed coinControl false nCoinType fUseIX
      nWatchonlyConfig) :
    0 < output.nValue := by
  obtain ⟨entry, _, txout, i, here, available⟩ := availableCoins_listed view _ _ _ _ _ _ output listed
  have value : output.nValue = txout.nValue := by
    rw [COutput.nValue, availableOutput_coin view _ _ _ _ _ _ _ _ _ _ available, coinValue,
      List.getD_eq_getElem?_getD, List.getElem?_map, here]
    rfl
  rw [value]
  exact availableOutput_positive view _ _ _ _ _ _ _ _ _ available

theorem filterMap_map_sublist {A B C : Type} (g : A → Option B) (f : B → C) (h : A → C)
    (items : List A) (same : ∀ item result, g item = some result → f result = h item) :
    ((items.filterMap g).map f).Sublist (items.map h) := by
  induction items with
  | nil => exact List.Sublist.refl []
  | cons item items ih =>
      rw [List.filterMap_cons, List.map_cons]
      cases found : g item with
      | none => exact ih.cons (h item)
      | some result =>
          rw [← same item result found]
          exact ih.cons_cons (f result)

theorem availableCoins_distinct (fOnlyConfirmed : Bool) (coinControl : Option CCoinControl)
    (fIncludeZeroValue : Bool) (nCoinType : AvailableCoinsType) (fUseIX : Bool)
    (nWatchonlyConfig : Nat) :
    ((availableCoins view fOnlyConfirmed coinControl fIncludeZeroValue nCoinType fUseIX
      nWatchonlyConfig).map COutput.coin).Nodup := by
  have outputs (entry : Uint256 × W) :
      ((if isConsidered view fOnlyConfirmed fUseIX entry.2 then
        (WalletTx.tx entry.2).vout.zipIdx.filterMap fun indexed =>
          availableOutput view coinControl fIncludeZeroValue nCoinType nWatchonlyConfig entry.1
            entry.2 (view.getDepthInMainChain entry.2 false) indexed.1 indexed.2
      else []).map COutput.coin).Sublist
        ((WalletTx.tx entry.2).vout.zipIdx.map fun indexed => (entry.2, indexed.2)) := by
    split
    · exact filterMap_map_sublist _ _ _ _ fun indexed output =>
        availableOutput_coin view _ _ _ _ _ _ _ indexed.1 indexed.2 output
    · exact List.nil_sublist _
  rw [availableCoins, List.map_flatMap, List.nodup_flatMap]
  constructor
  · intro entry _
    refine (outputs entry).nodup ?_
    have indices : ((WalletTx.tx entry.2).vout.zipIdx.map Prod.snd).Nodup := by
      rw [List.zipIdx_map_snd]
      exact List.nodup_range'
    have paired := indices.map (Prod.mk_right_injective entry.2)
    rw [List.map_map] at paired
    exact paired
  · refine (List.pairwise_map.mp view.separate).imp fun {entry other} apart => ?_
    intro coin mem otherMem
    obtain ⟨_, _, rfl⟩ := List.mem_map.mp ((outputs entry).subset mem)
    obtain ⟨_, _, same⟩ := List.mem_map.mp ((outputs other).subset otherMem)
    exact apart (Prod.ext_iff.mp same).1.symm

section selected

theorem Selection.Found.of_sublist {nTargetValue : Int} {outputs picked : List (COutput W)}
    {selection : Selection W} (found : selection.Found nTargetValue picked)
    (part : picked.Sublist outputs) : selection.Found nTargetValue outputs :=
  ⟨found.fRet, found.chosen.trans (part.map COutput.coin).subperm, found.nodup, found.nValueRet,
    found.enough⟩

variable [DecidableEq W]

theorem takeCoins_found (nTargetValue : Int) (outputs picked : List (COutput W))
    (distinct : (outputs.map COutput.coin).Nodup) (part : picked.Sublist outputs)
    (enough : nTargetValue ≤ (takeCoins (picked.map COutput.valued)).nValueRet) :
    (takeCoins (picked.map COutput.valued)).Found nTargetValue outputs := by
  have coins : (picked.map COutput.valued).map Prod.snd = picked.map COutput.coin := List.map_map
  have values : (picked.map COutput.valued).map Prod.fst = (picked.map COutput.coin).map coinValue := by
    rw [List.map_map, List.map_map]
    rfl
  have once : (picked.map COutput.coin).Nodup := distinct.sublist (part.map COutput.coin)
  have taken := takeCoins_distinct (picked.map COutput.valued) (coins ▸ once)
  rw [coins, values] at taken
  rw [taken] at enough ⊢
  exact ⟨rfl, (part.map COutput.coin).subperm, once, rfl, enough⟩

theorem selectCoinsMinConf_found (choices : Choices W obfuScationDenominations)
    (nTargetValue nConfMine nConfTheirs : Int)
    (fits : asAmount (nTargetValue + CENT) = nTargetValue + CENT) (vCoins : List (COutput W))
    (distinct : (vCoins.map COutput.coin).Nodup)
    (selected : (selectCoinsMinConf obfuScationDenominations nTargetValue nConfMine nConfTheirs
      choices vCoins).fRet = true) :
    (selectCoinsMinConf obfuScationDenominations nTargetValue nConfMine nConfTheirs choices
      vCoins).Found nTargetValue vCoins := by
  have settled := selectCoinsMinConf_settles obfuScationDenominations nTargetValue nConfMine
    nConfTheirs fits choices vCoins
  rcases settled with chosen | ⟨refused, _⟩
  · have found := selected_of_chosen obfuScationDenominations nTargetValue nConfMine nConfTheirs
      choices vCoins distinct _ chosen
    exact found.of_sublist List.filter_sublist
  · rw [refused] at selected
    cases selected

theorem selectCoins_selected [TxHasher] (choices : Nat → Choices W obfuScationDenominations)
    (nTargetValue : Int) (coinControl : Option CCoinControl) (coin_type : AvailableCoinsType)
    (useIX : Bool) (control : coinControl.any CCoinControl.hasSelected = true)
    (selected : (selectCoins view choices nTargetValue coinControl coin_type useIX).fRet = true) :
    (selectCoins view choices nTargetValue coinControl coin_type useIX).Found nTargetValue
      (availableCoins view true coinControl false coin_type useIX 1) := by
  have distinct := availableCoins_distinct view true coinControl false coin_type useIX 1
  unfold selectCoins at selected ⊢
  rw [if_pos control] at selected ⊢
  have found := takeCoins_found nTargetValue _ _ distinct List.filter_sublist
    (of_decide_eq_true selected)
  exact ⟨selected, found.chosen, found.nodup, found.nValueRet, found.enough⟩

theorem selectCoins_found [TxHasher] (choices : Nat → Choices W obfuScationDenominations)
    (nTargetValue : Int) (fits : asAmount (nTargetValue + CENT) = nTargetValue + CENT)
    (coinControl : Option CCoinControl) (coin_type : AvailableCoinsType) (useIX : Bool)
    (selected : (selectCoins view choices nTargetValue coinControl coin_type useIX).fRet = true) :
    (selectCoins view choices nTargetValue coinControl coin_type useIX).Found nTargetValue
      (availableCoins view true coinControl false coin_type useIX 1) := by
  by_cases control : coinControl.any CCoinControl.hasSelected = true
  · exact selectCoins_selected view choices nTargetValue coinControl coin_type useIX control selected
  have distinct := availableCoins_distinct view true coinControl false coin_type useIX 1
  have minConf (nConfMine nConfTheirs : Int) (call : Nat) :=
    selectCoinsMinConf_found (choices call) nTargetValue nConfMine nConfTheirs fits _ distinct
  unfold selectCoins at selected ⊢
  rw [if_neg control] at selected ⊢
  by_cases denominated : coin_type = .onlyDenominated
  · rw [if_pos denominated] at selected ⊢
    -- There are no denominations, so nothing is taken.
    exact ⟨selected, List.nil_subperm, List.nodup_nil, rfl, of_decide_eq_true selected⟩
  rw [if_neg denominated] at selected ⊢
  dsimp only at selected ⊢
  split at selected
  next first =>
    rw [if_pos first]
    exact minConf 1 6 0 first
  next none =>
    rw [if_neg none]
    split at selected
    next second =>
      rw [if_pos second]
      exact minConf 1 1 1 second
    next none =>
      rw [if_neg none]
      split at selected
      next spend =>
        rw [if_pos spend]
        exact minConf 0 1 2 selected
      next => exact absurd selected none

end selected

end available

@[reducible] def zeroHashes : TxHasher := ⟨fun _ => 0⟩

end Wallet

end CryptoYen
