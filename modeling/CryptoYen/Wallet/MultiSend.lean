import CryptoYen.Wallet.CreateTransaction

set_option autoImplicit false

namespace CryptoYen

namespace Wallet

structure MultiSendSettings where
  fMultiSendStake : Bool
  fMultiSendMasternodeReward : Bool
  -- An address and a percentage.
  vMultiSend : List (String × Int)
  vDisabledAddresses : List String
  nLastMultiSendHeight : Int
  deriving DecidableEq, Repr

structure MultiSendContext (W : Type) where
  view : WalletView W
  policy : FeePolicy
  params : CChainParams
  settings : MultiSendSettings
  fromAddress : String → CTxDestination
  toAddress : CTxDestination → String
  -- Of what is spendable.
  getCredit : W → Int
  getDebit : W → Int
  tipTime : Int
  tipHeight : Int
  nAdjustedTime : Int
  isLocked : Bool

structure MultiSendCalls (W : Type) [WalletTx W] where
  view : WalletView W
  estimate : Nat → FeeRound W
  send : Nat → FeeRound W
  fuel : Nat
  commits : Bool

inductive Handled
  | skipped
  | refused
  | sent (vecSend : List (CScript × Int))
  deriving DecidableEq, Repr

structure MultiSendState (W : Type) where
  stakeSent : Bool
  mnSent : Bool
  nLastMultiSendHeight : Int
  -- What was committed for which output.
  sent : List (COutput W × List (CScript × Int))
  deriving DecidableEq, Repr

def isMasternodeReward (tx : CTransaction) (n : Nat) : Bool :=
  tx.isCoinStake && n + 1 == tx.vout.length &&
    (tx.vout[1]?.map CTxOut.scriptPubKey != tx.vout[n]?.map CTxOut.scriptPubKey)

def setLastAmount (vecSend : List (CScript × Int)) (nAmount : Int) : List (CScript × Int) :=
  vecSend.modify (vecSend.length - 1) fun s => (s.1, nAmount)

section multiSend

variable {W : Type} [WalletTx W] (ctx : MultiSendContext W)

def netCredit (tx : W) : Int := ctx.getCredit tx - ctx.getDebit tx

def sendsMNReward (out : COutput W) : Bool :=
  ctx.settings.fMultiSendMasternodeReward && isMasternodeReward (WalletTx.tx out.tx) out.i

def sendsStake (out : COutput W) : Bool :=
  ctx.settings.fMultiSendStake && (WalletTx.tx out.tx).isCoinStake && !sendsMNReward ctx out

def myAddress [ScriptCrypto] (out : COutput W) : Option CTxDestination :=
  (WalletTx.tx out.tx).vout[out.i]?.bind fun txout => extractDestination txout.scriptPubKey

def multiSendAmounts (tx : W) : List (CScript × Int) :=
  ctx.settings.vMultiSend.map fun entry =>
    (getScriptForDestination (ctx.fromAddress entry.1),
      (asAmount (netCredit ctx tx * entry.2)).tdiv 100)

def isMature (out : COutput W) : Bool :=
  ctx.view.getDepthInMainChain out.tx true == ctx.params.nMaturity + 1

def sendControl [TxHasher] (destMyAddress : CTxDestination) (out : COutput W) : CCoinControl :=
  { CCoinControl.null with destChange := destMyAddress, setSelected := [out.outpoint] }

-- none where there is no result: a call does not end, or there is no last entry to read.
def handleOutput [DecidableEq W] [TxHasher] [ScriptCrypto] (calls : MultiSendCalls W)
    (out : COutput W) : Option Handled :=
  if isMature ctx out = false then some .skipped
  else if (sendsStake ctx out || sendsMNReward ctx out) = false then some .skipped
  else
    match myAddress out with
    | none => some .skipped
    | some destMyAddress =>
        if ctx.settings.vDisabledAddresses.contains (ctx.toAddress destMyAddress) then some .refused
        else
          let cControl := sendControl destMyAddress out
          let vecSend := multiSendAmounts ctx out.tx
          let create (vecSend : List (CScript × Int)) (rounds : Nat → FeeRound W) (nFeeRet : Int) :=
            createTransaction calls.view ctx.policy vecSend (some cControl) .allCoins false 0 rounds
              calls.fuel nFeeRet
          -- get the fee amount
          match create vecSend calls.estimate 0, vecSend.getLast? with
          | some (nFeeRet, _), some (_, nLastSendAmount) =>
              if nLastSendAmount < nFeeRet + 500 then some .refused
              else
                let vecSend := setLastAmount vecSend (nLastSendAmount - nFeeRet - 500)
                match create vecSend calls.send nFeeRet with
                | none => none
                | some (_, .error _) => some .refused
                | some (_, .ok _) => some (if calls.commits then .sent vecSend else .refused)
          | _, _ => none

def allSent (stakeSent mnSent : Bool) : Bool :=
  stakeSent && mnSent || stakeSent && !ctx.settings.fMultiSendMasternodeReward ||
    mnSent && !ctx.settings.fMultiSendStake

def recordSent (out : COutput W) (vecSend : List (CScript × Int)) (state : MultiSendState W) :
    MultiSendState W :=
  { stakeSent := state.stakeSent || sendsStake ctx out
    mnSent := state.mnSent || !sendsStake ctx out
    nLastMultiSendHeight := ctx.tipHeight
    sent := state.sent ++ [(out, vecSend)] }

def multiSendLoop [DecidableEq W] [TxHasher] [ScriptCrypto] (calls : Nat → MultiSendCalls W) :
    List (COutput W) → Nat → MultiSendState W → Option (Bool × MultiSendState W)
  | [], _, state => some (true, state)
  | out :: rest, n, state =>
      match handleOutput ctx (calls n) out with
      | none => none
      | some .skipped => multiSendLoop calls rest (n + 1) state
      | some .refused => some (false, state)
      | some (.sent vecSend) =>
          let state := recordSent ctx out vecSend state
          if allSent ctx state.stakeSent state.mnSent then some (true, state)
          else multiSendLoop calls rest (n + 1) state

def startsMultiSend : Bool :=
  !(decide (ctx.tipTime < ctx.nAdjustedTime - 300) || ctx.isLocked) &&
    decide (ctx.settings.nLastMultiSendHeight < ctx.tipHeight)

def multiSendCoins : List (COutput W) := availableCoins ctx.view true none false .allCoins false 1

def multiSend [DecidableEq W] [TxHasher] [ScriptCrypto] (calls : Nat → MultiSendCalls W) :
    Option (Bool × MultiSendState W) :=
  let state : MultiSendState W := ⟨false, false, ctx.settings.nLastMultiSendHeight, []⟩
  if startsMultiSend ctx then multiSendLoop ctx calls (multiSendCoins ctx) 0 state
  else some (false, state)

end multiSend

section once

variable {W : Type} [WalletTx W] (ctx : MultiSendContext W)

def isVisited [ScriptCrypto] (out : COutput W) : Bool :=
  isMature ctx out && (sendsStake ctx out || sendsMNReward ctx out) && (myAddress out).isSome

/-- The tests that a visited output must meet: its address is enabled, no amount is dust and the last
one is not less than 500, and the output is worth the amounts without these 500. -/
def isPayable [ScriptCrypto] (out : COutput W) : Bool :=
  (myAddress out).any (fun destMyAddress =>
      !ctx.settings.vDisabledAddresses.contains (ctx.toAddress destMyAddress)) &&
    (multiSendAmounts ctx out.tx).getLast?.any (fun last => decide (500 ≤ last.2)) &&
      (multiSendAmounts ctx out.tx).all (fun s => !isDust ctx.policy ⟨s.2, s.1⟩) &&
        decide (requestedFor (fun _ => true) (multiSendAmounts ctx out.tx) - 500 ≤ out.nValue)

/-- The outputs that can be paid for: those in front of one that ends the call, until all kinds
are sent. -/
def payableFrom [ScriptCrypto] : List (COutput W) → Bool → Bool → List (COutput W)
  | [], _, _ => []
  | out :: rest, stakeSent, mnSent =>
      if isVisited ctx out = false then payableFrom rest stakeSent mnSent
      else if isPayable ctx out = false then []
      else
        let stakeSent := stakeSent || sendsStake ctx out
        let mnSent := mnSent || !sendsStake ctx out
        if allSent ctx stakeSent mnSent then [out] else out :: payableFrom rest stakeSent mnSent

theorem hundredth_le (amount : Int) : 100 * amount.tdiv 100 ≤ max 0 amount := by
  rcases le_total 0 amount with positive | negative
  · rw [Int.tdiv_eq_ediv_of_nonneg positive]
    omega
  · have least : 0 ≤ (-amount).tdiv 100 := Int.tdiv_nonneg (by omega) (by decide)
    rw [Int.neg_tdiv] at least
    omega

structure Shares (out : COutput W) (vecSend : List (CScript × Int)) : Prop where
  count : vecSend.length = ctx.settings.vMultiSend.length
  share : ∀ (i : Nat) (entry : String × Int) (s : CScript × Int),
    ctx.settings.vMultiSend[i]? = some entry → vecSend[i]? = some s →
      s.2 ≤ (asAmount (netCredit ctx out.tx * entry.2)).tdiv 100
  whole : ∀ (i : Nat) (entry : String × Int) (s : CScript × Int),
    ctx.settings.vMultiSend[i]? = some entry → vecSend[i]? = some s →
      i + 1 < ctx.settings.vMultiSend.length →
        s.2 = (asAmount (netCredit ctx out.tx * entry.2)).tdiv 100

omit [WalletTx W] in
theorem setLastAmount_shares (out : COutput W) (last : CScript × Int) (nFee : Int) (fee : 0 ≤ nFee)
    (known : (multiSendAmounts ctx out.tx).getLast? = some last) :
    Shares ctx out (setLastAmount (multiSendAmounts ctx out.tx) (last.2 - nFee - 500)) := by
  have amounts (i : Nat) (entry : String × Int)
      (here : ctx.settings.vMultiSend[i]? = some entry) :
      (multiSendAmounts ctx out.tx)[i]? = some (getScriptForDestination (ctx.fromAddress entry.1),
        (asAmount (netCredit ctx out.tx * entry.2)).tdiv 100) := by
    rw [multiSendAmounts, List.getElem?_map, here]
    rfl
  have count : (multiSendAmounts ctx out.tx).length = ctx.settings.vMultiSend.length :=
    List.length_map ..
  refine ⟨?_, ?_, ?_⟩
  · rw [setLastAmount, List.length_modify, count]
  · intro i entry s here sent
    rw [setLastAmount, List.getElem?_modify, amounts i entry here] at sent
    split at sent
    next final =>
      rw [List.getLast?_eq_getElem?, final, amounts i entry here] at known
      cases known
      cases sent
      dsimp only
      omega
    next =>
      cases sent
      exact le_rfl
  · intro i entry s here sent inside
    rw [setLastAmount, List.getElem?_modify, amounts i entry here] at sent
    split at sent
    next => omega
    next =>
      cases sent
      rfl

omit [WalletTx W] in
theorem multiSendAmounts_typed (tx : W) : AreAmounts (multiSendAmounts ctx tx) := by
  intro s mem
  obtain ⟨entry, _, rfl⟩ := List.mem_map.mp mem
  have typed := asAmount_bounds (netCredit ctx tx * entry.2)
  dsimp only
  generalize asAmount (netCredit ctx tx * entry.2) = amount at typed
  rw [maxInt64] at typed ⊢
  rcases le_total 0 amount with positive | negative
  · rw [Int.tdiv_eq_ediv_of_nonneg positive]
    omega
  · have opposite := Int.neg_tdiv amount 100
    rw [Int.tdiv_eq_ediv_of_nonneg (by omega)] at opposite
    omega

theorem setLastAmount_append (init : List (CScript × Int)) (last : CScript × Int) (nAmount : Int) :
    setLastAmount (init ++ [last]) nAmount = init ++ [(last.1, nAmount)] := by
  rw [setLastAmount, List.length_append, List.length_singleton, Nat.add_sub_cancel,
    List.modify_eq_take_cons_drop (by simp)]
  simp

theorem handleOutput_skipped [DecidableEq W] [TxHasher] [ScriptCrypto] (calls : MultiSendCalls W)
    (out : COutput W) (handled : handleOutput ctx calls out = some .skipped) :
    isVisited ctx out = false := by
  rw [handleOutput] at handled
  split at handled
  next early => rw [isVisited, early, Bool.false_and, Bool.false_and]
  next =>
    split at handled
    next other => rw [isVisited, other, Bool.and_false, Bool.false_and]
    next =>
      split at handled
      next nobody => rw [isVisited, nobody, Option.isSome_none, Bool.and_false]
      next =>
        split at handled
        next => cases handled
        next =>
          dsimp only at handled
          split at handled
          next =>
            split at handled
            next => cases handled
            next =>
              split at handled
              next => cases handled
              next => cases handled
              next => split at handled <;> cases handled
          next => cases handled

structure Payment [DecidableEq W] [TxHasher] [ScriptCrypto] (calls : MultiSendCalls W)
    (out : COutput W) (vecSend : List (CScript × Int)) (destMyAddress : CTxDestination)
    (init : List (CScript × Int)) (last : CScript × Int) (nFeeRet : Int) : Prop where
  address : myAddress out = some destMyAddress
  enabled : ctx.settings.vDisabledAddresses.contains (ctx.toAddress destMyAddress) = false
  visited : isVisited ctx out = true
  amounts : multiSendAmounts ctx out.tx = init ++ [last]
  estimate : ∃ estimated, createTransaction calls.view ctx.policy (init ++ [last])
    (some (sendControl destMyAddress out)) .allCoins false 0 calls.estimate calls.fuel 0 =
      some (nFeeRet, estimated)
  enough : nFeeRet + 500 ≤ last.2
  sent : vecSend = init ++ [(last.1, last.2 - nFeeRet - 500)]
  send : ∃ nFee created, createTransaction calls.view ctx.policy vecSend
    (some (sendControl destMyAddress out)) .allCoins false 0 calls.send calls.fuel nFeeRet =
      some (nFee, .ok created)

theorem handleOutput_payment [DecidableEq W] [TxHasher] [ScriptCrypto] (calls : MultiSendCalls W)
    (out : COutput W) (vecSend : List (CScript × Int))
    (handled : handleOutput ctx calls out = some (.sent vecSend)) :
    ∃ destMyAddress init last nFeeRet,
      Payment ctx calls out vecSend destMyAddress init last nFeeRet := by
  rw [handleOutput] at handled
  split at handled
  next => cases handled
  next mature =>
    split at handled
    next => cases handled
    next kind =>
      split at handled
      next => cases handled
      next destMyAddress mine =>
        split at handled
        next => cases handled
        next enabled =>
          dsimp only at handled
          split at handled
          next nFeeRet _ script nLastSendAmount estimate known =>
            split at handled
            next => cases handled
            next enough =>
              split at handled
              next => cases handled
              next => cases handled
              next send =>
                split at handled
                next =>
                  cases handled
                  obtain ⟨init, amounts⟩ := List.getLast?_eq_some_iff.mp known
                  have sent := setLastAmount_append init (script, nLastSendAmount)
                    (nLastSendAmount - nFeeRet - 500)
                  rw [amounts] at estimate send
                  rw [Bool.not_eq_false] at mature kind
                  have visited : isVisited ctx out = true := by
                    rw [isVisited, mature, kind, mine]
                    rfl
                  rw [amounts, sent]
                  rw [sent] at send
                  exact ⟨destMyAddress, init, (script, nLastSendAmount), nFeeRet, mine,
                    Bool.eq_false_iff.mpr enabled, visited, amounts, ⟨_, estimate⟩, not_lt.mp enough,
                    rfl, _, _, send⟩
                next => cases handled
          next => cases handled

def SameWallet [TxHasher] (calls : Nat → MultiSendCalls W) (out : COutput W) : Prop :=
  ∀ n, ∀ entry ∈ (calls n).view.mapWallet, entry.1 = out.outpoint.hash → entry.2 = out.tx

theorem sendControl_coin [TxHasher] (view : WalletView W) (destMyAddress : CTxDestination)
    (out : COutput W)
    (same : ∀ entry ∈ view.mapWallet, entry.1 = out.outpoint.hash → entry.2 = out.tx)
    (output : COutput W)
    (listed : output ∈ paymentCoins view (some (sendControl destMyAddress out)) .allCoins false) :
    output.coin = out.coin := by
  obtain ⟨entry, member, txout, i, _, available⟩ :=
    availableCoins_listed view _ _ _ _ _ _ output listed
  have coin := availableOutput_coin view _ _ _ _ _ _ _ _ _ _ available
  simp only [availableOutput, Option.ite_none_left_eq_some] at available
  obtain ⟨_, _, _, _, _, _, _, selected, _⟩ := available
  have outpoint : (⟨entry.1, i⟩ : COutPoint) = out.outpoint := by
    simpa [sendControl, CCoinControl.hasSelected, CCoinControl.isSelected, CCoinControl.null]
      using selected
  have hash : entry.1 = out.outpoint.hash := congrArg COutPoint.hash outpoint
  have index : i = out.i := congrArg COutPoint.n outpoint
  rw [coin, same entry member hash, index]
  rfl

theorem sendControl_total [TxHasher] (view : WalletView W) (destMyAddress : CTxDestination)
    (out : COutput W) (worth : 0 ≤ out.nValue)
    (same : ∀ entry ∈ view.mapWallet, entry.1 = out.outpoint.hash → entry.2 = out.tx) :
    paymentTotal view (some (sendControl destMyAddress out)) .allCoins false ≤ out.nValue := by
  have alone := sendControl_coin view destMyAddress out same
  have distinct := availableCoins_distinct view true (some (sendControl destMyAddress out)) false
    .allCoins false 1
  rw [← paymentCoins] at distinct
  rw [paymentTotal]
  generalize paymentCoins view (some (sendControl destMyAddress out)) .allCoins false = outputs at *
  have few : outputs.length ≤ 1 := by
    have subset : outputs.map COutput.coin ⊆ [out.coin] := by
      intro coin mem
      obtain ⟨output, listed, rfl⟩ := List.mem_map.mp mem
      exact List.mem_singleton.mpr (alone output listed)
    have length := (distinct.subperm subset).length_le
    rwa [List.length_map] at length
  rcases Nat.le_one_iff_eq_zero_or_eq_one.mp few with none | one
  · rw [List.length_eq_zero_iff.mp none]
    exact worth
  · obtain ⟨output, rfl⟩ := List.length_eq_one_iff.mp one
    have value : output.nValue = out.nValue := congrArg coinValue (alone output List.mem_cons_self)
    rw [List.map_singleton, List.sum_singleton, value]

theorem isDust_lower (policy : FeePolicy) (scriptPubKey : CScript) (less more : Int)
    (lower : less ≤ more) (dust : isDust policy ⟨more, scriptPubKey⟩ = true) :
    isDust policy ⟨less, scriptPubKey⟩ = true :=
  decide_eq_true (lt_of_le_of_lt lower (of_decide_eq_true dust))

section payment

variable {ctx} [DecidableEq W] [TxHasher] [ScriptCrypto] {calls : MultiSendCalls W} {out : COutput W}
  {vecSend : List (CScript × Int)} {destMyAddress : CTxDestination} {init : List (CScript × Int)}
  {last : CScript × Int} {nFeeRet : Int}
  (payment : Payment ctx calls out vecSend destMyAddress init last nFeeRet)

include payment

theorem Payment.fee : 0 ≤ nFeeRet := by
  obtain ⟨_, estimate⟩ := payment.estimate
  exact createTransaction_fee _ _ _ _ _ _ _ (by decide) _ _ _ _ _ (by decide) le_rfl estimate

theorem Payment.lower : last.2 - nFeeRet - 500 ≤ last.2 := by
  have fee := payment.fee
  omega

theorem Payment.typed : AreAmounts (init ++ [last]) ∧ AreAmounts vecSend := by
  have typed := multiSendAmounts_typed ctx out.tx
  rw [payment.amounts] at typed
  have final : -2 ^ 63 ≤ last.2 ∧ last.2 ≤ maxInt64 := typed last (by simp)
  have lower := payment.lower
  have enough := payment.enough
  refine ⟨typed, ?_⟩
  rw [payment.sent]
  intro s mem
  rcases List.mem_append.mp mem with mem | mem
  · exact typed s (List.mem_append_left _ mem)
  · rw [List.mem_singleton.mp mem]
    exact ⟨by dsimp only; omega, by dsimp only; omega⟩

theorem Payment.large :
    ∀ s ∈ multiSendAmounts ctx out.tx, isDust ctx.policy ⟨s.2, s.1⟩ = false := by
  obtain ⟨_, _, send⟩ := payment.send
  have refused (s : CScript × Int) (mem : s ∈ vecSend)
      (dust : isDust ctx.policy ⟨s.2, s.1⟩ = true) : False := by
    obtain ⟨failure, failed⟩ := createTransaction_dust _ _ _ _ _ _ _ _ _ _ _ _ (by decide)
      ⟨_, rfl, rfl⟩ s mem dust send
    cases failed
  rw [payment.sent] at refused
  intro s mem
  by_contra dust
  rw [Bool.not_eq_false] at dust
  rw [payment.amounts] at mem
  rcases List.mem_append.mp mem with mem | mem
  · exact refused s (List.mem_append_left _ mem) dust
  · rw [List.mem_singleton.mp mem] at dust
    refine refused (last.1, last.2 - nFeeRet - 500)
      (List.mem_append_right _ List.mem_cons_self) ?_
    exact isDust_lower ctx.policy last.1 _ _ payment.lower dust

theorem Payment.funds (worth : 0 ≤ out.nValue)
    (same : ∀ entry ∈ calls.view.mapWallet, entry.1 = out.outpoint.hash → entry.2 = out.tx) :
    requestedFor (fun _ => true) (multiSendAmounts ctx out.tx) - 500 ≤ out.nValue := by
  by_contra short
  obtain ⟨_, estimate⟩ := payment.estimate
  obtain ⟨_, _, send⟩ := payment.send
  obtain ⟨typed, sentTyped⟩ := payment.typed
  have total := sendControl_total calls.view destMyAddress out worth same
  have requested := requestedFor_concat (fun _ => true) init last
  have sentFor := requestedFor_concat (fun _ => true) init (last.1, last.2 - nFeeRet - 500)
  rw [if_pos rfl] at requested sentFor
  rw [payment.amounts, requested] at short
  -- The estimate fails with no fee, and then the payment does.
  have free := (createTransaction_unfunded _ _ _ _ _ _ _ _ _ _ _ _ (by decide) rfl typed
    (by omega) estimate).2
  have refused := (createTransaction_unfunded _ _ _ _ _ _ _ _ _ _ _ _ (by decide) rfl sentTyped
    (by rw [payment.sent, sentFor]; dsimp only; omega) send).1
  obtain ⟨failure, failed⟩ := refused
  cases failed

end payment

theorem handleOutput_sent [DecidableEq W] [TxHasher] [ScriptCrypto] (calls : MultiSendCalls W)
    (out : COutput W) (vecSend : List (CScript × Int)) (worth : 0 ≤ out.nValue)
    (same : ∀ entry ∈ calls.view.mapWallet, entry.1 = out.outpoint.hash → entry.2 = out.tx)
    (handled : handleOutput ctx calls out = some (.sent vecSend)) :
    isVisited ctx out = true ∧ isPayable ctx out = true ∧ Shares ctx out vecSend := by
  obtain ⟨destMyAddress, init, last, nFeeRet, payment⟩ := handleOutput_payment ctx calls out vecSend
    handled
  have known : (multiSendAmounts ctx out.tx).getLast? = some last := by
    rw [payment.amounts, List.getLast?_concat]
  have fee := payment.fee
  have enough := payment.enough
  have shares := setLastAmount_shares ctx out last nFeeRet fee known
  rw [payment.amounts, setLastAmount_append, ← payment.sent] at shares
  refine ⟨payment.visited, ?_, shares⟩
  rw [isPayable, payment.address, Option.any_some, payment.enabled, known, Option.any_some,
    decide_eq_true (by omega), decide_eq_true (payment.funds worth same),
    List.all_eq_true.mpr fun s mem => by rw [payment.large s mem]; rfl]
  rfl

theorem multiSendLoop_sent [DecidableEq W] [TxHasher] [ScriptCrypto]
    (calls : Nat → MultiSendCalls W) (rest : List (COutput W)) (n : Nat)
    (state final : MultiSendState W) (ret : Bool) (worth : ∀ out ∈ rest, 0 ≤ out.nValue)
    (same : ∀ out ∈ rest, SameWallet calls out)
    (run : multiSendLoop ctx calls rest n state = some (ret, final)) :
    ∃ payments, final.sent = state.sent ++ payments ∧
      (payments.map Prod.fst) <+: payableFrom ctx rest state.stakeSent state.mnSent ∧
        ∀ payment ∈ payments, Shares ctx payment.1 payment.2 := by
  induction rest generalizing n state with
  | nil =>
      cases run
      exact ⟨[], (List.append_nil _).symm, List.nil_prefix, nofun⟩
  | cons out rest ih =>
      have later := fun (n : Nat) (state : MultiSendState W) =>
        ih n state (fun other mem => worth other (List.mem_cons_of_mem _ mem))
          (fun other mem => same other (List.mem_cons_of_mem _ mem))
      rw [multiSendLoop] at run
      rw [payableFrom]
      split at run
      next => cases run
      next skipped =>
        rw [if_pos (handleOutput_skipped ctx _ out skipped)]
        exact later (n + 1) state run
      next =>
        cases run
        exact ⟨[], (List.append_nil _).symm, List.nil_prefix, nofun⟩
      next vecSend handled =>
        obtain ⟨visited, payable, shares⟩ := handleOutput_sent ctx _ out vecSend
          (worth out List.mem_cons_self) (same out List.mem_cons_self n) handled
        rw [if_neg (Bool.not_eq_false _ ▸ visited), if_neg (Bool.not_eq_false _ ▸ payable)]
        dsimp only at run ⊢
        split at run
        next done =>
          cases run
          have ends : allSent ctx (state.stakeSent || sendsStake ctx out)
              (state.mnSent || !sendsStake ctx out) = true := done
          refine ⟨[(out, vecSend)], rfl, ?_, fun payment mem => ?_⟩
          · rw [if_pos ends]
            exact List.prefix_rfl
          · rw [List.mem_singleton.mp mem]
            exact shares
        next more =>
          obtain ⟨payments, sent, first, each⟩ := later _ _ run
          have goesOn : ¬ allSent ctx (state.stakeSent || sendsStake ctx out)
              (state.mnSent || !sendsStake ctx out) = true := more
          refine ⟨(out, vecSend) :: payments, ?_, ?_, List.forall_mem_cons.mpr ⟨shares, each⟩⟩
          · rw [sent, recordSent, List.append_assoc]
            rfl
          · rw [if_neg goesOn, List.map_cons]
            exact (List.prefix_cons_inj out).mpr first

/-- No stake transaction has two outputs that both can be paid for. -/
def PaysOnce [DecidableEq W] [ScriptCrypto] : Prop :=
  startsMultiSend ctx = false ∨
    ∀ tx, ((payableFrom ctx (multiSendCoins ctx) false false).filter fun out =>
      decide (out.tx = tx)).length ≤ 1

theorem payableFrom_single [ScriptCrypto] (coins : List (COutput W))
    (one : (ctx.settings.fMultiSendStake && ctx.settings.fMultiSendMasternodeReward) = false) :
    (payableFrom ctx coins false false).length ≤ 1 := by
  induction coins with
  | nil => exact Nat.zero_le 1
  | cons out rest ih =>
      rw [payableFrom]
      split
      next => exact ih
      next visited =>
        split
        next => exact Nat.zero_le 1
        next =>
          rw [Bool.not_eq_false, isVisited, Bool.and_eq_true, Bool.and_eq_true] at visited
          have kind := visited.1.2
          have done : allSent ctx (false || sendsStake ctx out) (false || !sendsStake ctx out) =
              true := by
            simp only [allSent, sendsStake, sendsMNReward] at *
            cases stake : ctx.settings.fMultiSendStake <;>
              cases reward : ctx.settings.fMultiSendMasternodeReward <;> simp_all
          dsimp only
          rw [if_pos done]
          exact le_rfl

theorem paysOnce_of_single [DecidableEq W] [ScriptCrypto]
    (one : (ctx.settings.fMultiSendStake && ctx.settings.fMultiSendMasternodeReward) = false) :
    PaysOnce ctx :=
  Or.inr fun _ => (List.length_filter_le ..).trans (payableFrom_single ctx _ one)

def paidFor [DecidableEq W] (state : MultiSendState W) (tx : W) (i : Nat) : Int :=
  ((state.sent.filter fun payment => decide (payment.1.tx = tx)).map fun payment =>
    (payment.2[i]?.map Prod.snd).getD 0).sum

theorem multiSend_sent [DecidableEq W] [TxHasher] [ScriptCrypto] (calls : Nat → MultiSendCalls W)
    (ret : Bool) (state : MultiSendState W)
    (same : ∀ out ∈ multiSendCoins ctx, SameWallet calls out)
    (run : multiSend ctx calls = some (ret, state)) :
    (startsMultiSend ctx = false → state.sent = []) ∧
      state.sent.map Prod.fst <+: payableFrom ctx (multiSendCoins ctx) false false ∧
        ∀ payment ∈ state.sent, Shares ctx payment.1 payment.2 := by
  rw [multiSend] at run
  split at run
  next starts =>
    obtain ⟨payments, sent, first, each⟩ := multiSendLoop_sent ctx calls _ 0 _ state ret
      (fun out listed => (availableCoins_positive ctx.view _ _ _ _ _ out listed).le) same run
    rw [List.nil_append] at sent
    rw [sent]
    exact ⟨fun stops => absurd starts (Bool.eq_false_iff.mp stops), first, each⟩
  next =>
    cases run
    exact ⟨fun _ => rfl, List.nil_prefix, nofun⟩

structure MultiSendSettings.Percentages (settings : MultiSendSettings) : Prop where
  nonneg : ∀ entry ∈ settings.vMultiSend, 0 ≤ entry.2
  total : (settings.vMultiSend.map Prod.snd).sum ≤ 100

theorem nMaxMoneyOut_share : ∀ params ∈ CChainParams.networks,
    100 * params.nMaxMoneyOut ≤ maxInt64 := by
  decide

omit [WalletTx W] in
theorem share_exact (percentages : ctx.settings.Percentages)
    (network : ctx.params ∈ CChainParams.networks) (tx : W)
    (credit : moneyRange ctx.params (ctx.getCredit tx) = true ∧
      moneyRange ctx.params (ctx.getDebit tx) = true)
    (entry : String × Int) (mem : entry ∈ ctx.settings.vMultiSend) :
    asAmount (netCredit ctx tx * entry.2) = netCredit ctx tx * entry.2 := by
  have limit := nMaxMoneyOut_share ctx.params network
  have low := percentages.nonneg entry mem
  have high : entry.2 ≤ 100 := by
    refine le_trans (List.single_le_sum ?_ _ (List.mem_map_of_mem mem)) percentages.total
    intro percent percentMem
    obtain ⟨other, otherMem, rfl⟩ := List.mem_map.mp percentMem
    exact percentages.nonneg other otherMem
  simp only [moneyRange, Bool.and_eq_true, decide_eq_true_eq] at credit
  have between : -ctx.params.nMaxMoneyOut ≤ netCredit ctx tx ∧
      netCredit ctx tx ≤ ctx.params.nMaxMoneyOut := by
    rw [netCredit]
    omega
  have upper : netCredit ctx tx * entry.2 ≤ ctx.params.nMaxMoneyOut * 100 :=
    Int.mul_le_mul between.2 high low (by omega)
  have lower : -netCredit ctx tx * entry.2 ≤ ctx.params.nMaxMoneyOut * 100 :=
    Int.mul_le_mul (by omega) high low (by omega)
  rw [Int.neg_mul] at lower
  have limit : 100 * ctx.params.nMaxMoneyOut ≤ 2 ^ 63 - 1 := limit
  exact asAmount_exact _ (by omega) (by rw [maxInt64]; omega)

theorem multiSend_pays_shares [DecidableEq W] [TxHasher] [ScriptCrypto]
    (calls : Nat → MultiSendCalls W) (ret : Bool) (state : MultiSendState W)
    (run : multiSend ctx calls = some (ret, state)) (tx : W) (i : Nat) (entry : String × Int)
    (same : ∀ out ∈ multiSendCoins ctx, SameWallet calls out)
    (here : ctx.settings.vMultiSend[i]? = some entry)
    (inside : i + 1 < ctx.settings.vMultiSend.length) :
    paidFor state tx i =
      (state.sent.filter fun payment => decide (payment.1.tx = tx)).length *
        (asAmount (netCredit ctx tx * entry.2)).tdiv 100 := by
  obtain ⟨_, _, shares⟩ := multiSend_sent ctx calls ret state same run
  have each : (state.sent.filter fun payment => decide (payment.1.tx = tx)).map
      (fun payment => (payment.2[i]?.map Prod.snd).getD 0) =
        List.replicate (state.sent.filter fun payment => decide (payment.1.tx = tx)).length
          ((asAmount (netCredit ctx tx * entry.2)).tdiv 100) := by
    refine List.eq_replicate_iff.mpr ⟨List.length_map .., fun amount mem => ?_⟩
    obtain ⟨payment, paid, rfl⟩ := List.mem_map.mp mem
    obtain ⟨member, same⟩ := List.mem_filter.mp paid
    have share := shares payment member
    have short : i < payment.2.length := by
      rw [share.count]
      omega
    have whole := share.whole i entry _ here (List.getElem?_eq_getElem short) inside
    rw [List.getElem?_eq_getElem short, Option.map_some, Option.getD_some, whole,
      of_decide_eq_true same]
  rw [paidFor, each, List.sum_replicate, nsmul_eq_mul]

end once

section split

def stakerScript : CScript := getScriptForDestination (.keyID 3)

def splitStake : CTransaction :=
  ⟨1, [⟨⟨1, 0⟩, [], 0xffffffff⟩],
    [CTxOut.empty, ⟨55 * COIN, stakerScript⟩, ⟨55 * COIN, stakerScript⟩], 0⟩

def splitStakeView : WalletView CTransaction :=
  { singleView splitStake with getDepthInMainChain := fun _ _ => 61 }

def halfSent (fMultiSendMasternodeReward : Bool) : MultiSendContext CTransaction where
  view := splitStakeView
  policy := defaultPolicy
  params := CChainParams.mainParams
  settings := ⟨true, fMultiSendMasternodeReward, [("payee", 50)], [], 0⟩
  fromAddress _ := .keyID 5
  toAddress _ := "staker"
  getCredit _ := 110 * COIN
  getDebit _ := 100 * COIN
  tipTime := 1000
  tipHeight := 100
  nAdjustedTime := 1000
  isLocked := false

def plainCalls (_ : Nat) : @MultiSendCalls CTransaction ownTransactions :=
  letI := ownTransactions
  ⟨splitStakeView, fun _ => plainRound, fun _ => plainRound, 2, true⟩

def sendHalf (fMultiSendMasternodeReward : Bool) : Option (Bool × MultiSendState CTransaction) :=
  letI := ownTransactions
  letI := zeroHashes
  letI := zeroDigests
  multiSend (halfSent fMultiSendMasternodeReward) plainCalls

end split

end Wallet

end CryptoYen
