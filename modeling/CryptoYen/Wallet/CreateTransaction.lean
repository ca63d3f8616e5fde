import CryptoYen.Wallet.AvailableCoins
import Mathlib.Tactic.Ring

set_option autoImplicit false

namespace CryptoYen

namespace Wallet

def MAX_STANDARD_TX_SIZE : Nat := 250000
def MAX_FREE_TRANSACTION_CREATE_SIZE : Nat := 1000

-- CFeeRate::GetFee of nSatoshisPerK; the product with a size_t is unsigned.
def getFee (nSatoshisPerK : Int) (nSize : Nat) : Int :=
  let nFee := nSatoshisPerK * nSize % 2 ^ 64 / 1000
  if nFee = 0 ∧ 0 < nSatoshisPerK then nSatoshisPerK else nFee

-- ParseMoney reads ten digits in front of the point and at most one coin behind it.
def MAX_PARSED_MONEY : Int := 10000000000 * COIN

/-- The fee rates and settings; the limits are settings that ParseMoney has read. -/
structure FeePolicy where
  minRelayTxFee : Int
  payTxFee : Int
  minTxFee : Int
  fPayAtLeastCustomFee : Bool
  maxTxFee : Int
  fSendFreeTransactions : Bool
  relayParsed : minRelayTxFee ≤ MAX_PARSED_MONEY
  maxParsed : 0 ≤ maxTxFee ∧ maxTxFee ≤ MAX_PARSED_MONEY
  deriving DecidableEq, Repr

/-- What one pass of the fee loop meets: the random choices, the key pool's answer, the signatures
and what the memory pool estimates. -/
structure FeeRound (W : Type) [WalletTx W] where
  choices : Nat → Choices W obfuScationDenominations
  getRandInt : (n : Nat) → Fin (n + 1)
  reservedKey : Option (BitVec 160)
  signSignature : W → CTransaction → Nat → Option CScript
  estimateFee : Int
  -- Whether the priority is enough to go without a fee.
  enoughPriority : CTransaction → Nat → Bool

inductive CreateFailure
  | failed (strFailReason : String)
  | assertion
  deriving DecidableEq, Repr

structure Created (W : Type) where
  tx : CTransaction
  setCoins : List (CoinId W)
  -- mapValue["DS"]
  fOverPaid : Bool
  fKeyReserved : Bool
  deriving DecidableEq, Repr

structure Change where
  vout : List CTxOut
  nFeeRet : Int
  fKeyReserved : Bool
  deriving DecidableEq, Repr

section fees

variable (policy : FeePolicy)

def getMinimumFee (estimateFee : Int) (nTxBytes : Nat) : Int :=
  let custom := getFee policy.payTxFee nTxBytes
  let atLeast :=
    if policy.fPayAtLeastCustomFee = true ∧ 0 < custom ∧ custom < getFee policy.payTxFee 1000 then
      getFee policy.payTxFee 1000
    else custom
  let estimated := if atLeast = 0 then getFee estimateFee nTxBytes else atLeast
  let fallback := if estimated = 0 then getFee policy.minTxFee nTxBytes else estimated
  min (max fallback (getFee policy.minRelayTxFee nTxBytes)) policy.maxTxFee

def isDust (txout : CTxOut) : Bool :=
  decide (txout.nValue < 3 * getFee policy.minRelayTxFee (txout.getSerializeSize + 148))

-- The remainder is added modulo 2^64, which is the sum again.
def splitOutputs (nSplitBlock : Int) (s : CScript × Int) : List CTxOut :=
  (List.range nSplitBlock.toNat).map fun (i : Nat) =>
    if (i : Int) = nSplitBlock - 1 then
      ⟨s.2.tdiv nSplitBlock + s.2.tmod nSplitBlock, s.1⟩
    else ⟨s.2.tdiv nSplitBlock, s.1⟩

def checkedOutput (s : CScript × Int) : Except CreateFailure CTxOut :=
  if isDust policy ⟨s.2, s.1⟩ then .error (.failed "Transaction amount too small")
  else .ok ⟨s.2, s.1⟩

-- Only a coin control that does not split has its outputs checked.
def payeeOutputs (coinControl : Option CCoinControl) (vecSend : List (CScript × Int)) :
    Except CreateFailure (List CTxOut) :=
  match coinControl with
  | none => .ok (vecSend.flatMap (splitOutputs 1))
  | some control =>
      if control.fSplitBlock then .ok (vecSend.flatMap (splitOutputs control.nSplitBlock))
      else vecSend.mapM (checkedOutput policy)

def customChange (coinControl : Option CCoinControl) : Option CScript :=
  coinControl.bind fun control =>
    if control.destChange = .noDestination then none
    else some (getScriptForDestination control.destChange)

def mergeChange (scriptChange : CScript) (nChange : Int) : List CTxOut → Option (List CTxOut)
  | [] => none
  | txout :: rest =>
      if scriptChange = txout.scriptPubKey then
        some ({ txout with nValue := asAmount (txout.nValue + nChange) } :: rest)
      else (mergeChange scriptChange nChange rest).map (txout :: ·)

def insertChange (position : (n : Nat) → Fin (n + 1)) (newTxOut : CTxOut) (vout : List CTxOut)
    (nFeeRet : Int) (fKeyReserved : Bool) : Change :=
  if isDust policy newTxOut then ⟨vout, asAmount (nFeeRet + newTxOut.nValue), false⟩
  else ⟨vout.insertIdx (position vout.length) newTxOut, nFeeRet, fKeyReserved⟩

-- none is an assertion that fails.
def addChange (position : (n : Nat) → Fin (n + 1)) (reservedKey : Option (BitVec 160))
    (coinControl : Option CCoinControl) (vout : List CTxOut) (nChange nFeeRet : Int) :
    Option Change :=
  if 0 < nChange then
    match customChange coinControl with
    | some scriptChange =>
        match mergeChange scriptChange nChange vout with
        | some merged => some (insertChange policy position ⟨0, scriptChange⟩ merged nFeeRet false)
        | none =>
            some (insertChange policy position ⟨nChange, scriptChange⟩ vout nFeeRet false)
    | none =>
        reservedKey.map fun id =>
          insertChange policy position ⟨nChange, getScriptForDestination (.keyID id)⟩ vout nFeeRet
            true
  else some ⟨vout, nFeeRet, false⟩

end fees

def insufficientFunds (coin_type : AvailableCoinsType) (useIX : Bool) : String :=
  (match coin_type with
    | .allCoins => "Insufficient funds."
    | .onlyNot10000IfMN =>
        "Unable to locate enough funds for this transaction that are not equal MN collateral " ++
          "CryptoYen."
    | .onlyNondenominatedNot10000IfMN =>
        "Unable to locate enough Obfuscation non-denominated funds for this transaction that are " ++
          "not equal MN collateral CryptoYen."
    | _ =>
        "Unable to locate enough Obfuscation denominated funds for this transaction." ++ " " ++
          "Obfuscation uses exact denominated amounts to send funds, you might simply need to " ++
            "anonymize some more coins.") ++
    if useIX then
      " " ++ "SwiftX requires inputs with at least 6 confirmations, you might need to wait a few " ++
        "minutes and try again."
    else ""

-- The sum of the amounts; it is looked at in front of each of them.
def sumAmounts : List (CScript × Int) → Int → Option Int
  | [], nValue => if nValue < 0 then none else some nValue
  | s :: rest, nValue => if nValue < 0 then none else sumAmounts rest (asAmount (nValue + s.2))

section create

variable {W : Type} [WalletTx W] [DecidableEq W] [TxHasher]

def coinInput (coin : CoinId W) : CTxIn :=
  ⟨⟨(WalletTx.tx coin.1).getHash, coin.2⟩, [], 0xffffffff⟩

def signInputs (signSignature : W → CTransaction → Nat → Option CScript) :
    List (CoinId W) → Nat → CTransaction → Option CTransaction
  | [], _, txNew => some txNew
  | coin :: rest, nIn, txNew =>
      (signSignature coin.1 txNew nIn).bind fun scriptSig =>
        signInputs signSignature rest (nIn + 1)
          { txNew with vin := txNew.vin.modify nIn fun txin => { txin with scriptSig } }

variable (view : WalletView W) (policy : FeePolicy) (vecSend : List (CScript × Int))
  (coinControl : Option CCoinControl) (coin_type : AvailableCoinsType) (useIX : Bool)
  (nFeePay : Int)

-- The fee to try next, none when enough is included.
def nextFee (round : FeeRound W) (txNew : CTransaction) (nFeeRet : Int) :
    Except CreateFailure (Option Int) :=
  let nBytes := txNew.getSerializeSize
  if MAX_STANDARD_TX_SIZE ≤ nBytes then .error (.failed "Transaction too large")
  else if policy.fSendFreeTransactions = true ∧ nBytes ≤ MAX_FREE_TRANSACTION_CREATE_SIZE ∧
      round.enoughPriority txNew nBytes = true then .ok none
  else
    let nFeeNeeded := max nFeePay (getMinimumFee policy round.estimateFee nBytes)
    if nFeeNeeded < getFee policy.minRelayTxFee nBytes then
      .error (.failed "Transaction too large for fee policy")
    else if nFeeNeeded ≤ nFeeRet then .ok none
    else .ok (some nFeeNeeded)

def createAttempt (round : FeeRound W) (nValue nFeeRet : Int) :
    Int × Except CreateFailure (Created W × Option Int) :=
  match payeeOutputs policy coinControl vecSend with
  | .error failure => (nFeeRet, .error failure)
  | .ok vout =>
      let nTotalValue := asAmount (nValue + nFeeRet)
      let selection := selectCoins view round.choices nTotalValue coinControl coin_type useIX
      if selection.fRet = false then
        (nFeeRet, .error (.failed (insufficientFunds coin_type useIX)))
      else
        let nLeft := asAmount (selection.nValueRet - nValue - nFeeRet)
        -- over pay for denominated transactions
        let fOverPaid := coin_type == .onlyDenominated
        let nFee := if fOverPaid then asAmount (nFeeRet + nLeft) else nFeeRet
        let nChange := if fOverPaid then 0 else nLeft
        match addChange policy round.getRandInt round.reservedKey coinControl vout nChange nFee with
        | none => (nFee, .error .assertion)
        | some change =>
            let unsigned : CTransaction :=
              ⟨1, selection.setCoinsRet.map coinInput, change.vout, 0⟩
            match signInputs round.signSignature selection.setCoinsRet 0 unsigned with
            | none => (change.nFeeRet, .error (.failed "Signing transaction failed"))
            | some txNew =>
                (change.nFeeRet,
                  (nextFee policy nFeePay round txNew change.nFeeRet).map fun next =>
                    (⟨txNew, selection.setCoinsRet, fOverPaid, change.fKeyReserved⟩, next))

-- none when the fuel runs out.
def feeLoop (rounds : Nat → FeeRound W) (nValue : Int) :
    Nat → Nat → Int → Option (Int × Except CreateFailure (Created W))
  | 0, _, _ => none
  | fuel + 1, pass, nFeeRet =>
      match createAttempt view policy vecSend coinControl coin_type useIX nFeePay (rounds pass)
          nValue nFeeRet with
      | (nFee, .error failure) => some (nFee, .error failure)
      | (nFee, .ok (created, none)) => some (nFee, .ok created)
      | (_, .ok (_, some nFeeNeeded)) => feeLoop rounds nValue fuel (pass + 1) nFeeNeeded

def leastFee : Int := if useIX = true ∧ nFeePay < CENT then CENT else nFeePay

def createTransaction (rounds : Nat → FeeRound W) (fuel : Nat) (nFeeRet : Int) :
    Option (Int × Except CreateFailure (Created W)) :=
  let nFeePay := leastFee useIX nFeePay
  match sumAmounts vecSend 0 with
  | none => some (nFeeRet, .error (.failed "Transaction amounts must be positive"))
  | some nValue =>
      if vecSend.isEmpty then
        some (nFeeRet, .error (.failed "Transaction amounts must be positive"))
      else
        feeLoop view policy vecSend coinControl coin_type useIX nFeePay rounds nValue fuel 0
          (if 0 < nFeePay then nFeePay else 0)

end create

section amounts

def paidTo (scripts : CScript → Bool) (vout : List CTxOut) : Int :=
  ((vout.filter fun txout => scripts txout.scriptPubKey).map CTxOut.nValue).sum

def requestedFor (scripts : CScript → Bool) (vecSend : List (CScript × Int)) : Int :=
  ((vecSend.filter fun s => scripts s.1).map Prod.snd).sum

variable (scripts : CScript → Bool)

theorem paidTo_append (before after : List CTxOut) :
    paidTo scripts (before ++ after) = paidTo scripts before + paidTo scripts after := by
  rw [paidTo, List.filter_append, List.map_append, List.sum_append, paidTo, paidTo]

theorem paidTo_cons (txout : CTxOut) (vout : List CTxOut) :
    paidTo scripts (txout :: vout) =
      (if scripts txout.scriptPubKey then txout.nValue else 0) + paidTo scripts vout := by
  rw [paidTo, List.filter_cons]
  split
  · rw [List.map_cons, List.sum_cons, paidTo]
  · rw [zero_add, paidTo]

theorem paidTo_perm {vout vout' : List CTxOut} (perm : vout.Perm vout') :
    paidTo scripts vout = paidTo scripts vout' :=
  ((perm.filter _).map _).sum_eq

theorem paidTo_all (vout : List CTxOut) :
    paidTo (fun _ => true) vout = (vout.map CTxOut.nValue).sum := by
  rw [paidTo, List.filter_true]

theorem requestedFor_cons (s : CScript × Int) (vecSend : List (CScript × Int)) :
    requestedFor scripts (s :: vecSend) =
      (if scripts s.1 then s.2 else 0) + requestedFor scripts vecSend := by
  rw [requestedFor, List.filter_cons]
  split
  · rw [List.map_cons, List.sum_cons, requestedFor]
  · rw [zero_add, requestedFor]

theorem requestedFor_concat (vecSend : List (CScript × Int)) (s : CScript × Int) :
    requestedFor scripts (vecSend ++ [s]) =
      requestedFor scripts vecSend + if scripts s.1 then s.2 else 0 := by
  rw [requestedFor, List.filter_append, List.map_append, List.sum_append, requestedFor,
    List.filter_singleton]
  cases scripts s.1 <;> simp

theorem asAmount_bounds (n : Int) : -2 ^ 63 ≤ asAmount n ∧ asAmount n ≤ maxInt64 := by
  have least : -(2 ^ 64 / 2 : Int) ≤ asAmount n := Int.le_bmod (by decide)
  have most : asAmount n < (2 ^ 64 + 1) / 2 := Int.bmod_lt (by decide)
  rw [maxInt64]
  omega

theorem asAmount_passed (n : Int) (more : maxInt64 < n) (twice : n ≤ 2 * maxInt64) :
    asAmount n < 0 := by
  have wrapped : asAmount n = asAmount (n - 2 ^ 64) := (Int.sub_bmod_right n (2 ^ 64)).symm
  rw [maxInt64] at more twice
  rw [wrapped, asAmount_exact _ (by omega) (by rw [maxInt64]; omega)]
  omega

theorem sumAmounts_nonneg (vecSend : List (CScript × Int)) (start nValue : Int)
    (summed : sumAmounts vecSend start = some nValue) : 0 ≤ start := by
  cases vecSend <;>
  · rw [sumAmounts, Option.ite_none_left_eq_some] at summed
    exact not_lt.mp summed.1

def AreAmounts (vecSend : List (CScript × Int)) : Prop :=
  ∀ s ∈ vecSend, -2 ^ 63 ≤ s.2 ∧ s.2 ≤ maxInt64

instance (vecSend : List (CScript × Int)) : Decidable (AreAmounts vecSend) :=
  inferInstanceAs (Decidable (∀ s ∈ vecSend, _))

theorem sumAmounts_total (vecSend : List (CScript × Int)) (amounts : AreAmounts vecSend)
    (start nValue : Int) (most : start ≤ maxInt64)
    (summed : sumAmounts vecSend start = some nValue) :
    nValue = start + requestedFor (fun _ => true) vecSend ∧ 0 ≤ nValue ∧ nValue ≤ maxInt64 := by
  have nonneg := sumAmounts_nonneg vecSend start nValue summed
  induction vecSend generalizing start with
  | nil =>
      rw [sumAmounts, Option.ite_none_left_eq_some] at summed
      rw [← Option.some.inj summed.2]
      exact ⟨(add_zero start).symm, nonneg, most⟩
  | cons s rest ih =>
      rw [sumAmounts, Option.ite_none_left_eq_some] at summed
      have typed := amounts s List.mem_cons_self
      have after := sumAmounts_nonneg rest _ nValue summed.2
      have exact : asAmount (start + s.2) = start + s.2 := by
        by_cases passed : maxInt64 < start + s.2
        · have wrapped := asAmount_passed _ passed (by omega)
          omega
        · exact asAmount_exact _ (by omega) (not_lt.mp passed)
      have total := ih (fun other mem => amounts other (List.mem_cons_of_mem _ mem)) _
        (asAmount_bounds _).2 summed.2 after
      rw [exact] at total
      rw [requestedFor_cons, if_pos rfl, ← add_assoc]
      exact total

theorem splitOutputs_succ (n : Nat) (s : CScript × Int) :
    splitOutputs ((n + 1 : Nat) : Int) s =
      List.replicate n ⟨s.2.tdiv (n + 1 : Nat), s.1⟩ ++
        [⟨s.2.tdiv (n + 1 : Nat) + s.2.tmod (n + 1 : Nat), s.1⟩] := by
  rw [splitOutputs, Int.toNat_natCast, List.range_succ, List.map_append, List.map_singleton,
    if_pos (by omega)]
  refine congrArg (· ++ _) (List.eq_replicate_iff.mpr ⟨?_, ?_⟩)
  · rw [List.length_map, List.length_range]
  · intro txout mem
    obtain ⟨i, inside, rfl⟩ := List.mem_map.mp mem
    rw [List.mem_range] at inside
    rw [if_neg (by omega)]

theorem exists_succ (nSplitBlock : Int) (splits : 1 ≤ nSplitBlock) :
    ∃ n : Nat, nSplitBlock = (n + 1 : Nat) :=
  ⟨(nSplitBlock - 1).toNat, by omega⟩

theorem paidTo_splitOutputs (nSplitBlock : Int) (splits : 1 ≤ nSplitBlock) (s : CScript × Int) :
    paidTo scripts (splitOutputs nSplitBlock s) = if scripts s.1 then s.2 else 0 := by
  obtain ⟨n, rfl⟩ := exists_succ nSplitBlock splits
  have whole := Int.mul_tdiv_add_tmod s.2 (n + 1 : Nat)
  rw [splitOutputs_succ, paidTo_append, paidTo_cons, paidTo]
  by_cases meant : scripts s.1 = true
  · have all : (List.replicate n (⟨s.2.tdiv (n + 1 : Nat), s.1⟩ : CTxOut)).filter
        (fun txout => scripts txout.scriptPubKey) =
          List.replicate n ⟨s.2.tdiv (n + 1 : Nat), s.1⟩ := by
      rw [List.filter_replicate, if_pos meant]
    rw [all, List.map_replicate, List.sum_replicate, if_pos meant, if_pos meant, nsmul_eq_mul]
    calc (n : Int) * s.2.tdiv (n + 1 : Nat) +
          (s.2.tdiv (n + 1 : Nat) + s.2.tmod (n + 1 : Nat) + 0)
        = (n + 1 : Nat) * s.2.tdiv (n + 1 : Nat) + s.2.tmod (n + 1 : Nat) := by
          rw [Nat.cast_add_one, add_one_mul]
          ring
      _ = s.2 := whole
  · have none : (List.replicate n (⟨s.2.tdiv (n + 1 : Nat), s.1⟩ : CTxOut)).filter
        (fun txout => scripts txout.scriptPubKey) = [] := by
      rw [List.filter_replicate, if_neg meant]
    rw [none, if_neg meant, if_neg meant]
    rfl

theorem quotient_add_remainder_nonneg (amount nSplitBlock : Int) (splits : 1 ≤ nSplitBlock) :
    0 ≤ amount.tdiv nSplitBlock + amount.tmod nSplitBlock ↔ 0 ≤ amount := by
  constructor
  · intro sum
    by_contra negative
    have quotient : 0 ≤ (-amount).tdiv nSplitBlock := Int.tdiv_nonneg (by omega) (by omega)
    have remainder : 0 ≤ (-amount).tmod nSplitBlock := Int.tmod_nonneg nSplitBlock (by omega)
    have whole := Int.mul_tdiv_add_tmod amount nSplitBlock
    rw [Int.neg_tdiv] at quotient
    rw [Int.neg_tmod] at remainder
    have noQuotient : amount.tdiv nSplitBlock = 0 := by omega
    rw [noQuotient, Int.mul_zero] at whole
    omega
  · intro positive
    have quotient : 0 ≤ amount.tdiv nSplitBlock := Int.tdiv_nonneg positive (by omega)
    have remainder : 0 ≤ amount.tmod nSplitBlock := Int.tmod_nonneg nSplitBlock positive
    omega

theorem getFee_nonneg (nSatoshisPerK : Int) (nSize : Nat) : 0 ≤ getFee nSatoshisPerK nSize := by
  rw [getFee]
  split
  next least => exact least.2.le
  next => exact Int.ediv_nonneg (Int.emod_nonneg _ (by decide)) (by decide)

theorem getFee_le (nSatoshisPerK : Int) (nSize : Nat) (parsed : nSatoshisPerK ≤ MAX_PARSED_MONEY) :
    getFee nSatoshisPerK nSize ≤ MAX_PARSED_MONEY := by
  rw [getFee]
  split
  next => exact parsed
  next =>
    have small : nSatoshisPerK * nSize % 2 ^ 64 < 2 ^ 64 := Int.emod_lt_of_pos _ (by decide)
    rw [MAX_PARSED_MONEY, COIN]
    omega

variable (policy : FeePolicy)

theorem nonneg_of_not_dust (txout : CTxOut) (notDust : isDust policy txout = false) :
    0 ≤ txout.nValue := by
  have least := of_decide_eq_false notDust
  have fee := getFee_nonneg policy.minRelayTxFee (txout.getSerializeSize + 148)
  omega

theorem checkedOutputs_ok (vecSend : List (CScript × Int)) (vout : List CTxOut)
    (checked : vecSend.mapM (checkedOutput policy) = .ok vout) :
    vout = vecSend.flatMap (splitOutputs 1) ∧ (∀ txout ∈ vout, 0 ≤ txout.nValue) ∧
      ∀ s ∈ vecSend, isDust policy ⟨s.2, s.1⟩ = false := by
  induction vecSend generalizing vout with
  | nil =>
      cases checked
      exact ⟨rfl, nofun, nofun⟩
  | cons s rest ih =>
      rw [List.mapM_cons, checkedOutput] at checked
      split at checked
      · cases checked
      next notDust =>
        cases tail : rest.mapM (checkedOutput policy) with
        | error failure =>
            rw [tail] at checked
            cases checked
        | ok vout =>
            rw [tail] at checked
            cases checked
            obtain ⟨same, nonneg, large⟩ := ih vout tail
            rw [Bool.not_eq_true] at notDust
            refine ⟨?_, ?_, List.forall_mem_cons.mpr ⟨notDust, large⟩⟩
            · have whole : splitOutputs 1 s = [⟨s.2, s.1⟩] := by
                have one := splitOutputs_succ 0 s
                rw [zero_add, Int.natCast_one, Int.tdiv_one, Int.tmod_one, add_zero] at one
                exact one
              rw [List.flatMap_cons, ← same, whole]
              rfl
            · intro txout mem
              cases mem with
              | head => exact nonneg_of_not_dust policy _ notDust
              | tail _ mem => exact nonneg txout mem

def splitCount : Option CCoinControl → Int
  | none => 1
  | some control => if control.fSplitBlock then control.nSplitBlock else 1

def IsChecked (coinControl : Option CCoinControl) : Prop :=
  ∃ control, coinControl = some control ∧ control.fSplitBlock = false

theorem payeeOutputs_ok (coinControl : Option CCoinControl) (vecSend : List (CScript × Int))
    (vout : List CTxOut) (paid : payeeOutputs policy coinControl vecSend = .ok vout) :
    vout = vecSend.flatMap (splitOutputs (splitCount coinControl)) ∧
      (IsChecked coinControl → ∀ txout ∈ vout, 0 ≤ txout.nValue) := by
  cases coinControl with
  | none =>
      cases paid
      exact ⟨rfl, fun ⟨_, absent, _⟩ => nomatch absent⟩
  | some control =>
      rw [payeeOutputs] at paid
      cases split : control.fSplitBlock with
      | true =>
          rw [split] at paid
          cases paid
          rw [splitCount, split]
          refine ⟨rfl, fun ⟨_, same, whole⟩ => ?_⟩
          cases same
          rw [split] at whole
          cases whole
      | false =>
          rw [split] at paid
          rw [splitCount, split]
          obtain ⟨same, nonneg, _⟩ := checkedOutputs_ok policy vecSend vout paid
          exact ⟨same, fun _ => nonneg⟩

theorem paidTo_split (nSplitBlock : Int) (splits : 1 ≤ nSplitBlock)
    (vecSend : List (CScript × Int)) :
    paidTo scripts (vecSend.flatMap (splitOutputs nSplitBlock)) = requestedFor scripts vecSend := by
  induction vecSend with
  | nil => rfl
  | cons s rest ih =>
      rw [List.flatMap_cons, paidTo_append, ih, paidTo_splitOutputs scripts nSplitBlock splits,
        requestedFor_cons]

theorem splitOutputs_nonneg (nSplitBlock : Int) (splits : 1 ≤ nSplitBlock) (s : CScript × Int) :
    (∀ txout ∈ splitOutputs nSplitBlock s, 0 ≤ txout.nValue) ↔ 0 ≤ s.2 := by
  obtain ⟨n, rfl⟩ := exists_succ nSplitBlock splits
  have last := quotient_add_remainder_nonneg s.2 (n + 1 : Nat) splits
  rw [splitOutputs_succ]
  constructor
  · intro nonneg
    exact last.mp (nonneg _ (List.mem_append_right _ List.mem_cons_self))
  · intro positive txout mem
    rcases List.mem_append.mp mem with mem | mem
    · rw [(List.mem_replicate.mp mem).2]
      exact Int.tdiv_nonneg positive (by omega)
    · rw [List.mem_singleton.mp mem]
      exact last.mpr positive

theorem quotient_add_remainder_le (amount nSplitBlock : Int) (splits : 1 ≤ nSplitBlock)
    (positive : 0 ≤ amount) :
    0 ≤ amount.tdiv nSplitBlock ∧ 0 ≤ amount.tmod nSplitBlock ∧
      amount.tdiv nSplitBlock + amount.tmod nSplitBlock ≤ amount := by
  have quotient : 0 ≤ amount.tdiv nSplitBlock := Int.tdiv_nonneg positive (by omega)
  have whole := Int.mul_tdiv_add_tmod amount nSplitBlock
  have times : amount.tdiv nSplitBlock ≤ nSplitBlock * amount.tdiv nSplitBlock :=
    by simpa using Int.mul_le_mul_of_nonneg_right splits quotient
  exact ⟨quotient, Int.tmod_nonneg nSplitBlock positive, by omega⟩

theorem splitOutputs_between (nSplitBlock : Int) (splits : 1 ≤ nSplitBlock) (s : CScript × Int) :
    ∀ txout ∈ splitOutputs nSplitBlock s, min 0 s.2 ≤ txout.nValue ∧ txout.nValue ≤ max 0 s.2 := by
  have pieces : min 0 s.2 ≤ s.2.tdiv nSplitBlock + s.2.tmod nSplitBlock ∧
      s.2.tdiv nSplitBlock + s.2.tmod nSplitBlock ≤ max 0 s.2 ∧
        min 0 s.2 ≤ s.2.tdiv nSplitBlock ∧ s.2.tdiv nSplitBlock ≤ max 0 s.2 := by
    rcases le_total 0 s.2 with positive | negative
    · have parts := quotient_add_remainder_le s.2 nSplitBlock splits positive
      omega
    · have parts := quotient_add_remainder_le (-s.2) nSplitBlock splits (by omega)
      rw [Int.neg_tdiv, Int.neg_tmod] at parts
      omega
  intro txout mem
  obtain ⟨i, _, rfl⟩ := List.mem_map.mp mem
  split
  · exact ⟨pieces.1, pieces.2.1⟩
  · exact pieces.2.2

structure Change.Adds (vout : List CTxOut) (nFeeRet nChange : Int) (change : Change) : Prop where
  total : paidTo (fun _ => true) change.vout + change.nFeeRet =
    paidTo (fun _ => true) vout + nFeeRet + nChange
  covers : ∀ scripts, paidTo scripts vout ≤ paidTo scripts change.vout
  fee : nFeeRet ≤ change.nFeeRet
  nonneg : (∀ txout ∈ vout, 0 ≤ txout.nValue) → ∀ txout ∈ change.vout, 0 ≤ txout.nValue

theorem insertChange_adds (position : (n : Nat) → Fin (n + 1)) (newTxOut : CTxOut)
    (vout : List CTxOut) (nFeeRet : Int) (fKeyReserved : Bool) (positive : 0 ≤ newTxOut.nValue)
    (paid : 0 ≤ nFeeRet) (room : nFeeRet + newTxOut.nValue ≤ maxInt64) :
    (insertChange policy position newTxOut vout nFeeRet fKeyReserved).Adds vout nFeeRet
      newTxOut.nValue := by
  have perm := List.perm_insertIdx newTxOut vout (Nat.lt_succ_iff.mp (position vout.length).isLt)
  rw [insertChange]
  split
  · rw [asAmount_exact _ (by omega) room]
    exact ⟨(add_assoc ..).symm, fun _ => le_rfl, le_add_of_nonneg_right positive,
      fun nonneg => nonneg⟩
  · refine ⟨?_, fun scripts => ?_, le_rfl, fun nonneg txout mem => ?_⟩
    · dsimp only
      rw [paidTo_perm _ perm, paidTo_cons, if_pos rfl]
      ring
    · dsimp only
      rw [paidTo_perm _ perm, paidTo_cons]
      split <;> omega
    · cases perm.subset mem with
      | head => exact positive
      | tail _ mem => exact nonneg txout mem

/-- Outputs that can take the change. -/
def Takes (nChange : Int) (vout : List CTxOut) : Prop :=
  ∀ txout ∈ vout, asAmount (txout.nValue + nChange) = txout.nValue + nChange

theorem Takes.tail {nChange : Int} {txout : CTxOut} {rest : List CTxOut}
    (takes : Takes nChange (txout :: rest)) : Takes nChange rest :=
  fun other mem => takes other (List.mem_cons_of_mem _ mem)

theorem mergeChange_paid (scriptChange : CScript) (nChange : Int) (vout merged : List CTxOut)
    (takes : Takes nChange vout)
    (found : mergeChange scriptChange nChange vout = some merged) :
    paidTo scripts merged = paidTo scripts vout + if scripts scriptChange then nChange else 0 := by
  induction vout generalizing merged with
  | nil => cases found
  | cons txout rest ih =>
      rw [mergeChange] at found
      split at found
      next same =>
        cases found
        rw [paidTo_cons, paidTo_cons, same, takes txout List.mem_cons_self]
        split <;> ring
      next =>
        obtain ⟨tail, later, rfl⟩ := Option.map_eq_some_iff.mp found
        rw [paidTo_cons, paidTo_cons, ih tail takes.tail later, add_assoc]

theorem mergeChange_nonneg (scriptChange : CScript) (nChange : Int) (vout merged : List CTxOut)
    (takes : Takes nChange vout) (found : mergeChange scriptChange nChange vout = some merged)
    (positive : 0 ≤ nChange) (nonneg : ∀ txout ∈ vout, 0 ≤ txout.nValue) :
    ∀ txout ∈ merged, 0 ≤ txout.nValue := by
  induction vout generalizing merged with
  | nil => cases found
  | cons txout rest ih =>
      have tail := fun other mem => nonneg other (List.mem_cons_of_mem _ mem)
      have here := nonneg txout List.mem_cons_self
      rw [mergeChange] at found
      split at found
      next =>
        cases found
        intro other mem
        cases mem with
        | head => exact (takes txout List.mem_cons_self).symm ▸ add_nonneg here positive
        | tail _ mem => exact tail other mem
      next =>
        obtain ⟨merged, later, rfl⟩ := Option.map_eq_some_iff.mp found
        intro other mem
        cases mem with
        | head => exact here
        | tail _ mem => exact ih merged takes.tail later tail other mem

theorem addChange_adds (position : (n : Nat) → Fin (n + 1)) (reservedKey : Option (BitVec 160))
    (coinControl : Option CCoinControl) (vout : List CTxOut) (nChange nFeeRet : Int)
    (change : Change) (positive : 0 ≤ nChange) (paid : 0 ≤ nFeeRet)
    (room : nFeeRet + nChange ≤ maxInt64) (takes : Takes nChange vout)
    (added : addChange policy position reservedKey coinControl vout nChange nFeeRet = some change) :
    change.Adds vout nFeeRet nChange := by
  rw [addChange] at added
  split at added
  next some =>
    split at added
    next scriptChange _ =>
      split at added
      next merged found =>
        cases added
        have inserted := insertChange_adds policy position ⟨0, scriptChange⟩ merged nFeeRet false
          le_rfl paid (by dsimp only; omega)
        refine ⟨?_, fun scripts => ?_, inserted.fee, fun nonneg => ?_⟩
        · rw [inserted.total, mergeChange_paid _ _ _ _ _ takes found, if_pos rfl]
          ring
        · refine le_trans ?_ (inserted.covers scripts)
          rw [mergeChange_paid scripts _ _ _ _ takes found]
          split <;> omega
        · exact inserted.nonneg (mergeChange_nonneg _ _ _ _ takes found positive nonneg)
      next =>
        cases added
        exact insertChange_adds policy position ⟨nChange, scriptChange⟩ vout nFeeRet false positive
          paid room
    next =>
      obtain ⟨id, _, rfl⟩ := Option.map_eq_some_iff.mp added
      exact insertChange_adds policy position ⟨nChange, _⟩ vout nFeeRet true positive paid room
  next none =>
    cases added
    have zero : nChange = 0 := by omega
    refine ⟨?_, fun _ => le_rfl, le_rfl, fun nonneg => nonneg⟩
    rw [zero, add_zero]

theorem insertChange_fee (position : (n : Nat) → Fin (n + 1)) (newTxOut : CTxOut)
    (vout : List CTxOut) (nFeeRet : Int) (fKeyReserved : Bool) (positive : 0 ≤ newTxOut.nValue)
    (range : 0 ≤ nFeeRet ∧ nFeeRet ≤ MAX_PARSED_MONEY) :
    0 ≤ (insertChange policy position newTxOut vout nFeeRet fKeyReserved).nFeeRet := by
  rw [insertChange]
  split
  next dust =>
    have small := of_decide_eq_true dust
    have most := getFee_le policy.minRelayTxFee (newTxOut.getSerializeSize + 148) policy.relayParsed
    simp only [MAX_PARSED_MONEY, COIN] at range most
    dsimp only
    rw [asAmount_exact _ (by omega) (by rw [maxInt64]; omega)]
    omega
  next => exact range.1

theorem addChange_fee (position : (n : Nat) → Fin (n + 1)) (reservedKey : Option (BitVec 160))
    (coinControl : Option CCoinControl) (vout : List CTxOut) (nChange nFeeRet : Int)
    (change : Change) (range : 0 ≤ nFeeRet ∧ nFeeRet ≤ MAX_PARSED_MONEY)
    (added : addChange policy position reservedKey coinControl vout nChange nFeeRet = some change) :
    0 ≤ change.nFeeRet := by
  rw [addChange] at added
  split at added
  next positive =>
    split at added
    next =>
      split at added
      all_goals cases added
      · exact insertChange_fee policy _ _ _ _ _ le_rfl range
      · exact insertChange_fee policy _ _ _ _ _ positive.le range
    next =>
      obtain ⟨id, _, rfl⟩ := Option.map_eq_some_iff.mp added
      exact insertChange_fee policy _ _ _ _ _ positive.le range
  next =>
    cases added
    exact range.1

def Lifted (scriptChange : CScript) (vecSend : List (CScript × Int)) : Prop :=
  ∃ before lifted after, vecSend = before ++ lifted :: after ∧ lifted.1 = scriptChange ∧
    (∀ s ∈ before, s.1 ≠ scriptChange) ∧ (∀ s ∈ before ++ after, 0 ≤ s.2) ∧ lifted.2 < 0

theorem nonneg_of_split (nSplitBlock : Int) (splits : 1 ≤ nSplitBlock)
    (vecSend : List (CScript × Int))
    (nonneg : ∀ txout ∈ vecSend.flatMap (splitOutputs nSplitBlock), 0 ≤ txout.nValue) :
    ∀ s ∈ vecSend, 0 ≤ s.2 := by
  intro s mem
  refine (splitOutputs_nonneg nSplitBlock splits s).mp fun txout txoutMem => ?_
  exact nonneg txout (List.mem_flatMap.mpr ⟨s, mem, txoutMem⟩)

theorem mergeChange_append (scriptChange : CScript) (nChange : Int) (before after : List CTxOut)
    (others : ∀ txout ∈ before, txout.scriptPubKey ≠ scriptChange) :
    mergeChange scriptChange nChange (before ++ after) =
      (mergeChange scriptChange nChange after).map (before ++ ·) := by
  induction before with
  | nil => exact Option.map_id'.symm
  | cons txout rest ih =>
      have tail := ih fun other mem => others other (List.mem_cons_of_mem _ mem)
      rw [List.cons_append, mergeChange, if_neg (Ne.symm (others txout List.mem_cons_self)), tail,
        Option.map_map]
      rfl

theorem splitOutputs_script (nSplitBlock : Int) (s : CScript × Int) :
    ∀ txout ∈ splitOutputs nSplitBlock s, txout.scriptPubKey = s.1 := by
  intro txout mem
  obtain ⟨i, _, rfl⟩ := List.mem_map.mp mem
  split <;> rfl

theorem mergeChange_lifted (scriptChange : CScript) (nChange nSplitBlock : Int)
    (splits : 1 ≤ nSplitBlock) (vecSend : List (CScript × Int)) (merged : List CTxOut)
    (found : mergeChange scriptChange nChange (vecSend.flatMap (splitOutputs nSplitBlock)) =
      some merged)
    (nonneg : ∀ txout ∈ merged, 0 ≤ txout.nValue) :
    (∀ s ∈ vecSend, 0 ≤ s.2) ∨ nSplitBlock = 1 ∧ Lifted scriptChange vecSend := by
  induction vecSend generalizing merged with
  | nil => exact Or.inl nofun
  | cons s rest ih =>
      rw [List.flatMap_cons] at found
      by_cases same : s.1 = scriptChange
      · obtain ⟨n, rfl⟩ := exists_succ nSplitBlock splits
        rw [splitOutputs_succ] at found
        cases n with
        | zero =>
            rw [List.replicate_zero, List.nil_append, List.singleton_append, mergeChange,
              if_pos same.symm] at found
            cases found
            have others := nonneg_of_split _ splits rest fun txout mem =>
              nonneg txout (List.mem_cons_of_mem _ mem)
            by_cases positive : 0 ≤ s.2
            · exact Or.inl (List.forall_mem_cons.mpr ⟨positive, others⟩)
            · exact Or.inr ⟨rfl, [], s, rest, rfl, same, nofun, others, not_le.mp positive⟩
        | succ n =>
            rw [List.replicate_succ, List.cons_append, List.cons_append, mergeChange,
              if_pos same.symm] at found
            cases found
            have kept := fun txout mem => nonneg txout (List.mem_cons_of_mem _ mem)
            have last := kept _ (List.mem_append_left _
              (List.mem_append_right _ List.mem_cons_self))
            refine Or.inl (List.forall_mem_cons.mpr ⟨?_, ?_⟩)
            · exact (quotient_add_remainder_nonneg s.2 _ splits).mp last
            · exact nonneg_of_split _ splits rest fun txout mem =>
                kept txout (List.mem_append_right _ mem)
      · rw [mergeChange_append _ _ _ _ fun txout mem =>
          splitOutputs_script nSplitBlock s txout mem ▸ same] at found
        obtain ⟨tail, later, rfl⟩ := Option.map_eq_some_iff.mp found
        have here := (splitOutputs_nonneg nSplitBlock splits s).mp fun txout mem =>
          nonneg txout (List.mem_append_left _ mem)
        have others := ih tail later fun txout mem => nonneg txout (List.mem_append_right _ mem)
        rcases others with others | ⟨one, before, lifted, after, whole, first, apart, rest, less⟩
        · exact Or.inl (List.forall_mem_cons.mpr ⟨here, others⟩)
        · refine Or.inr ⟨one, s :: before, lifted, after, ?_, first, ?_, ?_, less⟩
          · rw [whole, List.cons_append]
          · exact List.forall_mem_cons.mpr ⟨same, apart⟩
          · exact List.forall_mem_cons.mpr ⟨here, rest⟩

theorem insertChange_subset (position : (n : Nat) → Fin (n + 1)) (newTxOut : CTxOut)
    (vout : List CTxOut) (nFeeRet : Int) (fKeyReserved : Bool) :
    vout ⊆ (insertChange policy position newTxOut vout nFeeRet fKeyReserved).vout := by
  have perm := List.perm_insertIdx newTxOut vout (Nat.lt_succ_iff.mp (position vout.length).isLt)
  rw [insertChange]
  split
  · exact fun _ mem => mem
  · exact fun txout mem => perm.symm.subset (List.mem_cons_of_mem _ mem)

theorem addChange_lifted (position : (n : Nat) → Fin (n + 1)) (reservedKey : Option (BitVec 160))
    (coinControl : Option CCoinControl) (nSplitBlock : Int) (splits : 1 ≤ nSplitBlock)
    (vecSend : List (CScript × Int)) (nChange nFeeRet : Int) (change : Change)
    (added : addChange policy position reservedKey coinControl
      (vecSend.flatMap (splitOutputs nSplitBlock)) nChange nFeeRet = some change)
    (nonneg : ∀ txout ∈ change.vout, 0 ≤ txout.nValue) :
    (∀ s ∈ vecSend, 0 ≤ s.2) ∨ nSplitBlock = 1 ∧
      ∃ scriptChange, customChange coinControl = some scriptChange ∧
        Lifted scriptChange vecSend := by
  rw [addChange] at added
  split at added
  next =>
    split at added
    next scriptChange custom =>
      split at added
      next merged found =>
        cases added
        have kept := fun txout mem => nonneg txout (insertChange_subset policy _ _ merged _ _ mem)
        have lifted := mergeChange_lifted scriptChange nChange nSplitBlock splits vecSend merged
          found kept
        exact lifted.imp_right fun ⟨one, lifted⟩ => ⟨one, scriptChange, custom, lifted⟩
      next =>
        cases added
        exact Or.inl (nonneg_of_split nSplitBlock splits vecSend fun txout mem =>
          nonneg txout (insertChange_subset policy _ _ _ _ _ mem))
    next =>
      obtain ⟨id, _, rfl⟩ := Option.map_eq_some_iff.mp added
      exact Or.inl (nonneg_of_split nSplitBlock splits vecSend fun txout mem =>
        nonneg txout (insertChange_subset policy _ _ _ _ _ mem))
  next =>
    cases added
    exact Or.inl (nonneg_of_split nSplitBlock splits vecSend nonneg)

end amounts

section created

theorem prevouts_modify (vin : List CTxIn) (nIn : Nat) (scriptSig : CScript) :
    (vin.modify nIn fun txin => { txin with scriptSig }).map CTxIn.prevout =
      vin.map CTxIn.prevout := by
  induction vin generalizing nIn with
  | nil => cases nIn <;> rfl
  | cons txin rest ih =>
      cases nIn with
      | zero => rfl
      | succ nIn =>
          rw [List.modify_succ_cons, List.map_cons, List.map_cons, ih]

variable {W : Type}

theorem signInputs_frame (signSignature : W → CTransaction → Nat → Option CScript)
    (coins : List (CoinId W)) (nIn : Nat) (txNew signed : CTransaction)
    (done : signInputs signSignature coins nIn txNew = some signed) :
    signed.vout = txNew.vout ∧ signed.prevouts = txNew.prevouts := by
  induction coins generalizing nIn txNew with
  | nil =>
      cases done
      exact ⟨rfl, rfl⟩
  | cons coin rest ih =>
      rw [signInputs] at done
      obtain ⟨scriptSig, _, later⟩ := Option.bind_eq_some_iff.mp done
      obtain ⟨vout, prevouts⟩ := ih _ _ later
      exact ⟨vout, prevouts.trans (prevouts_modify txNew.vin nIn scriptSig)⟩

variable [WalletTx W] [DecidableEq W] [TxHasher] (view : WalletView W) (policy : FeePolicy)
  (vecSend : List (CScript × Int)) (coinControl : Option CCoinControl)
  (coin_type : AvailableCoinsType) (useIX : Bool) (nFeePay : Int)

def paymentCoins : List (COutput W) := availableCoins view true coinControl false coin_type useIX 1

def paymentTotal : Int := ((paymentCoins view coinControl coin_type useIX).map COutput.nValue).sum

omit [DecidableEq W] [TxHasher] in
theorem paymentCoins_worth (coins : List (CoinId W))
    (part : coins.Subperm ((paymentCoins view coinControl coin_type useIX).map COutput.coin)) :
    (coins.map coinValue).sum ≤ paymentTotal view coinControl coin_type useIX := by
  obtain ⟨ordered, order, sublist⟩ := part
  have values := sublist.map coinValue
  rw [List.map_map] at values
  rw [← (order.map coinValue).sum_eq]
  refine values.sum_le_sum fun value mem => ?_
  obtain ⟨output, listed, rfl⟩ := List.mem_map.mp mem
  exact (availableCoins_positive view _ _ _ _ _ output listed).le

omit [DecidableEq W] in
structure Assembled (nValue nFee : Int) (created : Created W) : Prop where
  inputs : created.tx.prevouts = created.setCoins.map fun coin => (coinInput coin).prevout
  wallet : created.setCoins.Subperm
    ((paymentCoins view coinControl coin_type useIX).map COutput.coin)
  distinct : created.setCoins.Nodup
  outputs : ∃ vout change position reservedKey nChange nFeeRet,
    payeeOutputs policy coinControl vecSend = .ok vout ∧
      addChange policy position reservedKey coinControl vout nChange nFeeRet = some change ∧
        created.tx.vout = change.vout ∧ nFee = change.nFeeRet ∧ 0 ≤ nChange ∧ 0 ≤ nFeeRet ∧
          (created.setCoins.map coinValue).sum = nValue + nFeeRet + nChange

theorem createAttempt_ok (round : FeeRound W) (nValue nFeeRet nFee : Int) (created : Created W)
    (next : Option Int)
    (attempt : createAttempt view policy vecSend coinControl coin_type useIX nFeePay round nValue
      nFeeRet = (nFee, .ok (created, next))) :
    ∃ selection vout change,
      selectCoins view round.choices (asAmount (nValue + nFeeRet)) coinControl coin_type useIX =
        selection ∧
      payeeOutputs policy coinControl vecSend = .ok vout ∧ selection.fRet = true ∧
      addChange policy round.getRandInt round.reservedKey coinControl vout
        (if coin_type == .onlyDenominated then 0
          else asAmount (selection.nValueRet - nValue - nFeeRet))
        (if coin_type == .onlyDenominated then
          asAmount (nFeeRet + asAmount (selection.nValueRet - nValue - nFeeRet)) else nFeeRet) =
          some change ∧
      signInputs round.signSignature selection.setCoinsRet 0
        ⟨1, selection.setCoinsRet.map coinInput, change.vout, 0⟩ = some created.tx ∧
      nextFee policy nFeePay round created.tx change.nFeeRet = .ok next ∧
      created.setCoins = selection.setCoinsRet ∧ nFee = change.nFeeRet := by
  rw [createAttempt] at attempt
  split at attempt
  next => cases (Prod.mk.inj attempt).2
  next vout paid =>
    dsimp only at attempt
    split at attempt
    next => cases (Prod.mk.inj attempt).2
    next funded =>
      rw [Bool.not_eq_false] at funded
      split at attempt
      next => cases (Prod.mk.inj attempt).2
      next change added =>
        split at attempt
        next => cases (Prod.mk.inj attempt).2
        next txNew signed =>
          obtain ⟨fee, finished⟩ := Prod.mk.inj attempt
          cases last : nextFee policy nFeePay round txNew change.nFeeRet with
          | error failure =>
              rw [last] at finished
              cases finished
          | ok next =>
              rw [last] at finished
              cases finished
              exact ⟨_, vout, change, rfl, paid, funded, added, signed, last, rfl, fee.symm⟩

theorem createAttempt_assembled (round : FeeRound W) (nValue nFeeRet nFee : Int)
    (created : Created W) (next : Option Int) (value : 0 ≤ nValue) (low : 0 ≤ nFeeRet)
    (room : nValue + nFeeRet + CENT ≤ maxInt64)
    (wallet : paymentTotal view coinControl coin_type useIX ≤ maxInt64)
    (attempt : createAttempt view policy vecSend coinControl coin_type useIX nFeePay round nValue
      nFeeRet = (nFee, .ok (created, next))) :
    Assembled view policy vecSend coinControl coin_type useIX nValue nFee created := by
  obtain ⟨selection, vout, change, chosen, paid, funded, added, signed, _, coins, fee⟩ :=
    createAttempt_ok view policy vecSend coinControl coin_type useIX nFeePay round nValue nFeeRet nFee
      created next attempt
  have cent : (0 : Int) ≤ CENT := by decide
  have target := asAmount_exact (nValue + nFeeRet) (by omega) (by omega)
  have fits := asAmount_exact (nValue + nFeeRet + CENT) (by omega) room
  have selected := selectCoins_found view round.choices (nValue + nFeeRet) fits coinControl coin_type
    useIX
  rw [target] at chosen
  rw [chosen] at selected
  have found := selected funded
  have enough := found.enough
  have worth := paymentCoins_worth view coinControl coin_type useIX _ found.chosen
  rw [← found.nValueRet] at worth
  rw [asAmount_exact (selection.nValueRet - nValue - nFeeRet) (by omega) (by omega),
    asAmount_exact (nFeeRet + _) (by omega) (by omega)] at added
  obtain ⟨outputs, prevouts⟩ := signInputs_frame _ _ _ _ _ signed
  refine ⟨?_, coins ▸ found.chosen, coins ▸ found.nodup, vout, change, _, _, _, _, paid, added,
    outputs, fee, ?_, ?_, ?_⟩
  · rw [prevouts, coins, CTransaction.prevouts, List.map_map]
    rfl
  · split <;> omega
  · split <;> omega
  · rw [coins, ← found.nValueRet]
    split <;> omega

omit [DecidableEq W] [TxHasher] in
theorem nextFee_range (round : FeeRound W) (txNew : CTransaction) (nFeeRet nFeeNeeded : Int)
    (more : nextFee policy nFeePay round txNew nFeeRet = .ok (some nFeeNeeded)) :
    0 ≤ nFeeNeeded ∧ nFeeNeeded ≤ max nFeePay policy.maxTxFee := by
  have relay := getFee_nonneg policy.minRelayTxFee txNew.getSerializeSize
  have least := policy.maxParsed.1
  rw [nextFee] at more
  split at more
  next => cases more
  next =>
    split at more
    next => cases more
    next =>
      dsimp only at more
      split at more
      next => cases more
      next =>
        split at more
        next => cases more
        next =>
          cases more
          rw [getMinimumFee]
          omega

theorem createAttempt_next (round : FeeRound W) (nValue nFeeRet nFee nFeeNeeded : Int)
    (created : Created W)
    (attempt : createAttempt view policy vecSend coinControl coin_type useIX nFeePay round nValue
      nFeeRet = (nFee, .ok (created, some nFeeNeeded))) :
    0 ≤ nFeeNeeded ∧ nFeeNeeded ≤ max nFeePay policy.maxTxFee := by
  obtain ⟨_, _, change, _, _, _, _, _, more, _, _⟩ := createAttempt_ok view policy vecSend coinControl
    coin_type useIX nFeePay round nValue nFeeRet nFee created _ attempt
  exact nextFee_range policy nFeePay round created.tx change.nFeeRet nFeeNeeded more

theorem feeLoop_assembled (rounds : Nat → FeeRound W) (nValue : Int) (fuel pass : Nat)
    (nFeeRet nFee : Int) (created : Created W) (value : 0 ≤ nValue)
    (room : nValue + max nFeePay policy.maxTxFee + CENT ≤ maxInt64)
    (wallet : paymentTotal view coinControl coin_type useIX ≤ maxInt64)
    (range : 0 ≤ nFeeRet ∧ nFeeRet ≤ max nFeePay policy.maxTxFee)
    (ret : feeLoop view policy vecSend coinControl coin_type useIX nFeePay rounds nValue fuel pass
      nFeeRet = some (nFee, .ok created)) :
    Assembled view policy vecSend coinControl coin_type useIX nValue nFee created := by
  induction fuel generalizing pass nFeeRet with
  | zero => cases ret
  | succ fuel ih =>
      rw [feeLoop] at ret
      split at ret
      next => cases (Prod.mk.inj (Option.some.inj ret)).2
      next attempt =>
        cases ret
        exact createAttempt_assembled view policy vecSend coinControl coin_type useIX nFeePay _ _ _ _
          _ _ value range.1 (by omega) wallet attempt
      next attempt =>
        have next := createAttempt_next view policy vecSend coinControl coin_type useIX nFeePay _ _
          _ _ _ _ attempt
        exact ih _ _ next ret

section refused

variable (rounds : Nat → FeeRound W) (fuel : Nat) (nFeeRet nFee : Int)
  (result : Except CreateFailure (Created W))

theorem createTransaction_refused (least : leastFee useIX nFeePay ≤ 0)
    (refused : ∀ nValue, sumAmounts vecSend 0 = some nValue → ∃ failure,
      createAttempt view policy vecSend coinControl coin_type useIX (leastFee useIX nFeePay)
        (rounds 0) nValue 0 = (0, .error failure))
    (ret : createTransaction view policy vecSend coinControl coin_type useIX nFeePay rounds fuel
      nFeeRet = some (nFee, result)) :
    (∃ failure, result = .error failure) ∧ (nFee = nFeeRet ∨ nFee = 0) := by
  rw [createTransaction] at ret
  split at ret
  next =>
    cases ret
    exact ⟨⟨_, rfl⟩, Or.inl rfl⟩
  next nValue summed =>
    split at ret
    next =>
      cases ret
      exact ⟨⟨_, rfl⟩, Or.inl rfl⟩
    next =>
      obtain ⟨failure, failed⟩ := refused nValue summed
      rw [if_neg (not_lt.mpr least)] at ret
      cases fuel with
      | zero => cases ret
      | succ fuel =>
          rw [feeLoop, failed] at ret
          cases ret
          exact ⟨⟨failure, rfl⟩, Or.inr rfl⟩

theorem createTransaction_unfunded (least : leastFee useIX nFeePay ≤ 0)
    (control : coinControl.any CCoinControl.hasSelected = true) (amounts : AreAmounts vecSend)
    (short : paymentTotal view coinControl coin_type useIX < requestedFor (fun _ => true) vecSend)
    (ret : createTransaction view policy vecSend coinControl coin_type useIX nFeePay rounds fuel
      nFeeRet = some (nFee, result)) :
    (∃ failure, result = .error failure) ∧ (nFee = nFeeRet ∨ nFee = 0) := by
  refine createTransaction_refused view policy vecSend coinControl coin_type useIX nFeePay rounds fuel
    nFeeRet nFee result least (fun nValue summed => ?_) ret
  obtain ⟨exact, value, most⟩ := sumAmounts_total vecSend amounts 0 nValue (by decide) summed
  rw [createAttempt, add_zero, asAmount_exact nValue (by omega) most]
  split
  next failure _ => exact ⟨failure, rfl⟩
  next =>
    have unfunded : (selectCoins view (rounds 0).choices nValue coinControl coin_type useIX).fRet =
        false := by
      by_contra funded
      rw [Bool.not_eq_false] at funded
      have found := selectCoins_selected view (rounds 0).choices nValue coinControl coin_type useIX
        control funded
      have worth := paymentCoins_worth view coinControl coin_type useIX _ found.chosen
      have enough := found.enough
      rw [found.nValueRet] at enough
      omega
    dsimp only
    rw [if_pos unfunded]
    exact ⟨_, rfl⟩

theorem createTransaction_dust (least : leastFee useIX nFeePay ≤ 0) (whole : IsChecked coinControl)
    (s : CScript × Int) (mem : s ∈ vecSend) (dust : isDust policy ⟨s.2, s.1⟩ = true)
    (ret : createTransaction view policy vecSend coinControl coin_type useIX nFeePay rounds fuel
      nFeeRet = some (nFee, result)) :
    ∃ failure, result = .error failure := by
  refine (createTransaction_refused view policy vecSend coinControl coin_type useIX nFeePay rounds
    fuel nFeeRet nFee result least (fun nValue _ => ?_) ret).1
  obtain ⟨control, rfl, single⟩ := whole
  rw [createAttempt]
  split
  next failure _ => exact ⟨failure, rfl⟩
  next vout paid =>
    rw [payeeOutputs, if_neg (Bool.eq_false_iff.mp single)] at paid
    have large := (checkedOutputs_ok policy vecSend vout paid).2.2 s mem
    rw [dust] at large
    cases large

end refused

section fee

variable (plain : coin_type ≠ .onlyDenominated)

include plain

theorem createAttempt_fee (round : FeeRound W) (nValue nFeeRet : Int)
    (range : 0 ≤ nFeeRet ∧ nFeeRet ≤ MAX_PARSED_MONEY) :
    0 ≤ (createAttempt view policy vecSend coinControl coin_type useIX nFeePay round nValue
      nFeeRet).1 := by
  have paid : (coin_type == .onlyDenominated) = false := beq_false_of_ne plain
  rw [createAttempt, paid]
  split
  next => exact range.1
  next vout _ =>
    dsimp only
    split
    next => exact range.1
    next =>
      split
      next => exact range.1
      next change added =>
        have fee := addChange_fee policy _ _ _ _ _ _ change range added
        split <;> exact fee

theorem feeLoop_fee (rounds : Nat → FeeRound W) (nValue : Int) (fuel pass : Nat)
    (nFeeRet nFee : Int) (result : Except CreateFailure (Created W))
    (asked : nFeePay ≤ MAX_PARSED_MONEY) (range : 0 ≤ nFeeRet ∧ nFeeRet ≤ MAX_PARSED_MONEY)
    (ret : feeLoop view policy vecSend coinControl coin_type useIX nFeePay rounds nValue fuel pass
      nFeeRet = some (nFee, result)) : 0 ≤ nFee := by
  induction fuel generalizing pass nFeeRet with
  | zero => cases ret
  | succ fuel ih =>
      have least := createAttempt_fee view policy vecSend coinControl coin_type useIX nFeePay plain
        (rounds pass) nValue nFeeRet range
      rw [feeLoop] at ret
      split at ret
      next attempt =>
        cases ret
        rw [attempt] at least
        exact least
      next attempt =>
        cases ret
        rw [attempt] at least
        exact least
      next attempt =>
        have next := createAttempt_next view policy vecSend coinControl coin_type useIX nFeePay _ _
          _ _ _ _ attempt
        exact ih _ _ ⟨next.1, next.2.trans (max_le asked policy.maxParsed.2)⟩ ret

theorem createTransaction_fee (rounds : Nat → FeeRound W) (fuel : Nat) (nFeeRet nFee : Int)
    (result : Except CreateFailure (Created W)) (asked : nFeePay ≤ MAX_PARSED_MONEY)
    (start : 0 ≤ nFeeRet)
    (ret : createTransaction view policy vecSend coinControl coin_type useIX nFeePay rounds fuel
      nFeeRet = some (nFee, result)) : 0 ≤ nFee := by
  have most : leastFee useIX nFeePay ≤ MAX_PARSED_MONEY := by
    rw [leastFee]
    split
    · decide
    · exact asked
  rw [createTransaction] at ret
  split at ret
  next =>
    cases ret
    exact start
  next =>
    split at ret
    next =>
      cases ret
      exact start
    next =>
      refine feeLoop_fee view policy vecSend coinControl coin_type useIX _ plain rounds _ fuel 0 _ nFee
        result most ?_ ret
      split
      next positive => exact ⟨positive.le, most⟩
      next => decide

end fee

/-- The sums of a call stay in an int64_t: the amounts with the largest fee and CENT, the coins, and
the coins with what one recipient gets beyond all of them together. -/
structure Fits : Prop where
  amounts : AreAmounts vecSend
  total : requestedFor (fun _ => true) vecSend +
    max (leastFee useIX nFeePay) policy.maxTxFee + CENT ≤ maxInt64
  coins : paymentTotal view coinControl coin_type useIX ≤ maxInt64
  merged : ∀ s ∈ vecSend, s.2 + (paymentTotal view coinControl coin_type useIX -
    requestedFor (fun _ => true) vecSend) ≤ maxInt64

/-- A transaction that is created balances and pays what is requested; without the check for dust
its outputs are all positive or zero only when the amounts are, or when change is merged into the one
that is not. -/
theorem createTransaction_balanced (rounds : Nat → FeeRound W) (fuel : Nat) (nFeeRet nFee : Int)
    (created : Created W)
    (splits : ∀ control, coinControl = some control → control.fSplitBlock = true →
      1 ≤ control.nSplitBlock)
    (fits : Fits view policy vecSend coinControl coin_type useIX nFeePay)
    (ret : createTransaction view policy vecSend coinControl coin_type useIX nFeePay rounds fuel
      nFeeRet = some (nFee, .ok created)) :
    created.tx.prevouts = created.setCoins.map (fun coin => (coinInput coin).prevout) ∧
      created.setCoins.Nodup ∧
      (created.setCoins.map coinValue).sum = (created.tx.vout.map CTxOut.nValue).sum + nFee ∧
      (∀ scripts, requestedFor scripts vecSend ≤ paidTo scripts created.tx.vout) ∧
      ((IsChecked coinControl ∨ ∀ s ∈ vecSend, 0 ≤ s.2) →
        ∀ txout ∈ created.tx.vout, 0 ≤ txout.nValue) ∧
      ((∀ txout ∈ created.tx.vout, 0 ≤ txout.nValue) →
        (IsChecked coinControl ∨ ∀ s ∈ vecSend, 0 ≤ s.2) ∨
          splitCount coinControl = 1 ∧ ∃ scriptChange,
            customChange coinControl = some scriptChange ∧ Lifted scriptChange vecSend) := by
  have count : 1 ≤ splitCount coinControl := by
    cases coinControl with
    | none => exact le_rfl
    | some control =>
        rw [splitCount]
        split
        next splitting => exact splits control rfl splitting
        next => exact le_rfl
  have least := policy.maxParsed.1
  rw [createTransaction] at ret
  split at ret
  next => cases ret
  next nValue summed =>
    obtain ⟨exact, value, _⟩ := sumAmounts_total vecSend fits.amounts 0 nValue (by decide) summed
    rw [zero_add] at exact
    have total := fits.total
    rw [← exact] at total
    split at ret
    next => cases ret
    next =>
      have assembled := feeLoop_assembled view policy vecSend coinControl coin_type useIX _ rounds
        nValue fuel 0 _ nFee created value total fits.coins (by split <;> omega) ret
      obtain ⟨vout, change, position, reservedKey, nChange, nFeeRet, paid, added, outputs, fee,
        positive, low, spent⟩ := assembled.outputs
      have worth := paymentCoins_worth view coinControl coin_type useIX _ assembled.wallet
      have coins := fits.coins
      obtain ⟨same, checked⟩ := payeeOutputs_ok policy coinControl vecSend vout paid
      have takes : Takes nChange vout := by
        rw [same]
        intro txout mem
        obtain ⟨s, sMem, txoutMem⟩ := List.mem_flatMap.mp mem
        have between := splitOutputs_between _ count s txout txoutMem
        have typed := fits.amounts s sMem
        have merged := fits.merged s sMem
        rw [← exact] at merged
        exact asAmount_exact _ (by omega) (by omega)
      have adds := addChange_adds policy position reservedKey coinControl vout nChange nFeeRet change
        positive low (by omega) takes added
      have requested (scripts : CScript → Bool) :
          paidTo scripts vout = requestedFor scripts vecSend := by
        rw [same]
        exact paidTo_split scripts _ count vecSend
      refine ⟨assembled.inputs, assembled.distinct, ?_, fun scripts => ?_, fun holds => ?_,
        fun nonneg => ?_⟩
      · rw [spent, exact, outputs, ← paidTo_all, fee, adds.total, requested]
      · rw [← requested, outputs]
        exact adds.covers scripts
      · rw [outputs]
        refine adds.nonneg ?_
        rcases holds with whole | amounts
        · exact checked whole
        · rw [same]
          intro txout mem
          obtain ⟨s, sMem, txoutMem⟩ := List.mem_flatMap.mp mem
          exact (splitOutputs_nonneg _ count s).mpr (amounts s sMem) txout txoutMem
      · rw [same] at added
        rw [outputs] at nonneg
        have lifted := addChange_lifted policy position reservedKey coinControl _ count vecSend
          nChange nFeeRet change added nonneg
        exact lifted.imp_left Or.inr

end created

section single

def singleView (tx : CTransaction) : WalletView CTransaction where
  mapWallet := [(0, tx)]
  separate := List.nodup_singleton _
  checkFinalTx _ := true
  isTrusted _ := true
  getBlocksToMaturity _ := 0
  getDepthInMainChain _ _ := 10
  inMempool _ := false
  isMine _ := .spendable
  isSpent _ _ := false
  isLockedCoin _ _ := false
  getInputObfuscationRounds _ := -2
  nObfuscationRounds := 2
  fMasterNode := false
  bSpendZeroConfChange := true

def defaultPolicy : FeePolicy := ⟨10000, 0, 10000, true, COIN, false, by decide, by decide⟩

def plainRound : @FeeRound CTransaction ownTransactions :=
  letI := ownTransactions
  { choices := fun _ => Choices.stable _ fun _ _ _ => true
    getRandInt := fun _ => 0
    reservedKey := some 3
    signSignature := fun _ _ _ => some (List.replicate 107 0)
    estimateFee := 0
    enoughPriority := fun _ _ => false }

def twoPayments (first second : Int) : List (CScript × Int) :=
  [(getScriptForDestination (.keyID 1), first), (getScriptForDestination (.keyID 2), second)]

def payFromSingle (first second : Int) : Option (Int × Except CreateFailure (Created CTransaction)) :=
  letI := ownTransactions
  letI := zeroHashes
  createTransaction (singleView (plainTx COIN)) defaultPolicy (twoPayments first second) none
    .allCoins false 0 (fun _ => plainRound) 2 0

/-- Only the sum of the amounts is looked at: the second output is negative. -/
theorem createTransaction_negative :
    ∃ nFee created, payFromSingle 10000 (-3000) = some (nFee, .ok created) ∧
      ¬ ∀ txout ∈ created.tx.vout, 0 ≤ txout.nValue := by
  refine ⟨_, _, rfl, ?_⟩
  decide

set_option maxRecDepth 20000 in
/-- Beyond the bounds the second pass spends nothing and pays from a change that has wrapped. -/
example : ∃ nFee created, payFromSingle maxInt64 0 = some (nFee, .ok created) ∧
    created.setCoins = [] ∧ (created.tx.vout.map CTxOut.nValue).sum + nFee = 2 ^ 64 := by
  refine ⟨_, _, rfl, ?_⟩
  decide

set_option maxRecDepth 2000 in
theorem createTransaction_balanced_single :
    ∃ nFee created, payFromSingle 10000 5000 = some (nFee, .ok created) ∧
      created.setCoins = [(plainTx COIN, 0)] ∧
      COIN = (created.tx.vout.map CTxOut.nValue).sum + nFee := by
  have paid : ∃ nFee created, payFromSingle 10000 5000 = some (nFee, .ok created) ∧
      created.setCoins = [(plainTx COIN, 0)] := by
    refine ⟨_, _, rfl, ?_⟩
    decide
  obtain ⟨nFee, created, ret, coins⟩ := paid
  let _ := ownTransactions
  let _ := zeroHashes
  have fits : Fits (singleView (plainTx COIN)) defaultPolicy (twoPayments 10000 5000) none .allCoins
      false 0 :=
    ⟨by decide, by decide, by decide, by decide⟩
  have balanced := createTransaction_balanced (singleView (plainTx COIN)) defaultPolicy
    (twoPayments 10000 5000) none .allCoins false 0 (fun _ => plainRound) 2 0 nFee created nofun fits
      ret
  refine ⟨nFee, created, ret, coins, ?_⟩
  rw [← balanced.2.2.1, coins]
  rfl

end single

end Wallet

end CryptoYen
