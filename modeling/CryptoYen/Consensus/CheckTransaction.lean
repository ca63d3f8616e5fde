import Mathlib.Algebra.BigOperators.Group.Finset.Basic
import Mathlib.Algebra.Order.BigOperators.Group.List
import CryptoYen.Coins.View
import CryptoYen.Consensus.Params
import CryptoYen.Consensus.Validation

set_option autoImplicit false

namespace CryptoYen

def MAX_BLOCK_SIZE_CURRENT : Nat := 2000000

def moneyRange (params : CChainParams) (nValueOut : Int) : Bool :=
  0 ≤ nValueOut && nValueOut ≤ params.nMaxMoneyOut

def checkOutput (params : CChainParams) (tx : CTransaction) (nValueOut : Int) (txout : CTxOut) :
    Except Failure Int := do
  require (!(txout.isEmpty && !tx.isCoinBase && !tx.isCoinStake)) (.dos 100 0 "")
  require (!(txout.nValue < 0)) (.dos 100 REJECT_INVALID "bad-txns-vout-negative")
  require (!(params.nMaxMoneyOut < txout.nValue))
    (.dos 100 REJECT_INVALID "bad-txns-vout-toolarge")
  require (moneyRange params (nValueOut + txout.nValue))
    (.dos 100 REJECT_INVALID "bad-txns-txouttotal-toolarge")
  pure (nValueOut + txout.nValue)

-- The loop looks each outpoint up in vInOutPoints and never puts one there.
def checkDuplicateInputs (vInOutPoints : List COutPoint) : List CTxIn → Check
  | [] => .ok ()
  | txin :: rest =>
      if txin.prevout ∈ vInOutPoints then
        .error (.dos 100 REJECT_INVALID "bad-txns-inputs-duplicate")
      else checkDuplicateInputs vInOutPoints rest

def checkScriptSigSize (txin : CTxIn) : Check :=
  require (!(txin.scriptSig.length < 2 || 150 < txin.scriptSig.length))
    (.dos 100 REJECT_INVALID "bad-cb-length")

def checkPrevout (txin : CTxIn) : Check :=
  require (!txin.prevout.isNull) (.dos 10 REJECT_INVALID "bad-txns-prevout-null")

def checkTransaction (params : CChainParams) (tx : CTransaction) : Check := do
  require (!tx.vin.isEmpty) (.dos 10 REJECT_INVALID "bad-txns-vin-empty")
  require (!tx.vout.isEmpty) (.dos 10 REJECT_INVALID "bad-txns-vout-empty")
  require (!(MAX_BLOCK_SIZE_CURRENT < tx.getSerializeSize))
    (.dos 100 REJECT_INVALID "bad-txns-oversize")
  let _ ← tx.vout.foldlM (checkOutput params tx) 0
  checkDuplicateInputs [] tx.vin
  if tx.isCoinBase then forM (tx.vin.take 1) checkScriptSigSize
  else forM tx.vin checkPrevout

structure OutputsInRange (params : CChainParams) (tx : CTransaction) : Prop where
  nonEmpty : ∀ txout ∈ tx.vout,
    txout.isEmpty = true → tx.isCoinBase = true ∨ tx.isCoinStake = true
  nonNegative : ∀ txout ∈ tx.vout, 0 ≤ txout.nValue
  total : (tx.vout.map CTxOut.nValue).sum ≤ params.nMaxMoneyOut

structure PassesOtherChecks (params : CChainParams) (tx : CTransaction) : Prop where
  vin : tx.vin ≠ []
  vout : tx.vout ≠ []
  size : tx.getSerializeSize ≤ MAX_BLOCK_SIZE_CURRENT
  outputs : OutputsInRange params tx
  coinbase : tx.isCoinBase = true →
    ∀ txin ∈ tx.vin, 2 ≤ txin.scriptSig.length ∧ txin.scriptSig.length ≤ 150
  prevouts : tx.isCoinBase = false → ∀ txin ∈ tx.vin, txin.prevout.isNull = false

structure SpendsOnce (tx : CTransaction) : Prop where
  distinct : tx.prevouts.Nodup
  spends : ∀ (_ : TxHasher) (view : CCoinsView) (nHeight : Nat), view.haveInputs tx = true →
    (view.updateCoins tx nHeight).isSome = true
  counted : ∀ view : CCoinsView, view.haveInputs tx = true → tx.isCoinBase = false →
    view.getValueIn tx = some (∑ out ∈ tx.prevouts.toFinset, view.valueAt out)

theorem checkDuplicateInputs_empty (vin : List CTxIn) : checkDuplicateInputs [] vin = .ok () := by
  induction vin with
  | nil => rfl
  | cons txin rest ih => simpa [checkDuplicateInputs] using ih

theorem checkOutput_ok (params : CChainParams) (tx : CTransaction) (start total : Int)
    (txout : CTxOut) :
    checkOutput params tx start txout = .ok total ↔
      (txout.isEmpty = true → tx.isCoinBase = true ∨ tx.isCoinStake = true) ∧
        0 ≤ txout.nValue ∧ txout.nValue ≤ params.nMaxMoneyOut ∧ 0 ≤ start + txout.nValue ∧
        start + txout.nValue ≤ params.nMaxMoneyOut ∧ total = start + txout.nValue := by
  simp only [checkOutput, Except.bind_ok, exists_unit, require_ok, moneyRange, Except.pure_ok,
    Bool.not_eq_true',
    Bool.and_eq_true, Bool.and_eq_false_iff, Bool.not_eq_false', decide_eq_true_eq,
    decide_eq_false_iff_not, not_lt]
  have exempt : ((txout.isEmpty = false ∨ tx.isCoinBase = true) ∨ tx.isCoinStake = true) ↔
      (txout.isEmpty = true → tx.isCoinBase = true ∨ tx.isCoinStake = true) := by
    cases txout.isEmpty <;> simp
  rw [exempt]
  constructor
  · rintro ⟨used, nonNegative, small, ⟨low, high⟩, rfl⟩
    exact ⟨used, nonNegative, small, low, high, rfl⟩
  · rintro ⟨used, nonNegative, small, low, high, rfl⟩
    exact ⟨used, nonNegative, small, ⟨low, high⟩, rfl⟩

theorem sum_nonneg (outs : List CTxOut) (nonNegative : ∀ txout ∈ outs, 0 ≤ txout.nValue) :
    0 ≤ (outs.map CTxOut.nValue).sum := by
  apply List.sum_nonneg
  simpa using nonNegative

theorem checkOutputs_ok (params : CChainParams) (tx : CTransaction) (outs : List CTxOut)
    (start : Int) (begun : 0 ≤ start) (inRange : start ≤ params.nMaxMoneyOut) :
    (∃ total, outs.foldlM (checkOutput params tx) start = .ok total) ↔
      (∀ txout ∈ outs, txout.isEmpty = true → tx.isCoinBase = true ∨ tx.isCoinStake = true) ∧
        (∀ txout ∈ outs, 0 ≤ txout.nValue) ∧
        start + (outs.map CTxOut.nValue).sum ≤ params.nMaxMoneyOut := by
  induction outs generalizing start with
  | nil => simpa using inRange
  | cons txout rest ih =>
      simp only [List.foldlM_cons, Except.bind_ok, checkOutput_ok, List.forall_mem_cons,
        List.map_cons, List.sum_cons]
      constructor
      · rintro ⟨total, mid, ⟨used, nonNegative, _, low, high, rfl⟩, summed⟩
        obtain ⟨others, nonNegatives, bound⟩ := (ih _ low high).mp ⟨total, summed⟩
        exact ⟨⟨used, others⟩, ⟨nonNegative, nonNegatives⟩, by omega⟩
      · rintro ⟨⟨used, others⟩, ⟨nonNegative, nonNegatives⟩, bound⟩
        have tail := sum_nonneg rest nonNegatives
        have low : 0 ≤ start + txout.nValue := by omega
        have high : start + txout.nValue ≤ params.nMaxMoneyOut := by omega
        obtain ⟨total, summed⟩ := (ih _ low high).mpr ⟨others, nonNegatives, by omega⟩
        exact ⟨total, _, ⟨used, nonNegative, by omega, low, high, rfl⟩, summed⟩

theorem checkScriptSigSize_ok (txin : CTxIn) :
    checkScriptSigSize txin = .ok () ↔
      2 ≤ txin.scriptSig.length ∧ txin.scriptSig.length ≤ 150 := by
  simp only [checkScriptSigSize, require_ok, Bool.not_eq_true', Bool.or_eq_false_iff,
    decide_eq_false_iff_not]
  omega

theorem checkPrevout_ok (txin : CTxIn) :
    checkPrevout txin = .ok () ↔ txin.prevout.isNull = false := by
  simp [checkPrevout]

theorem take_one_of_isCoinBase (tx : CTransaction) (coinbase : tx.isCoinBase = true) :
    tx.vin.take 1 = tx.vin := by
  unfold CTransaction.isCoinBase at coinbase
  split at coinbase
  next txin single => rw [single]; rfl
  next => cases coinbase

theorem checkOutputs_iff (params : CChainParams) (tx : CTransaction) (outputs : tx.vout ≠ []) :
    (∃ total, tx.vout.foldlM (checkOutput params tx) 0 = .ok total) ↔ OutputsInRange params tx := by
  by_cases money : 0 ≤ params.nMaxMoneyOut
  · rw [checkOutputs_ok params tx tx.vout 0 le_rfl money, zero_add]
    constructor
    · rintro ⟨used, nonNegative, total⟩
      exact ⟨used, nonNegative, total⟩
    · rintro ⟨used, nonNegative, total⟩
      exact ⟨used, nonNegative, total⟩
  · constructor
    · rintro ⟨total, summed⟩
      obtain ⟨txout, rest, cons⟩ := List.exists_cons_of_ne_nil outputs
      rw [cons, List.foldlM_cons, Except.bind_ok] at summed
      obtain ⟨mid, first, _⟩ := summed
      obtain ⟨_, low, high, _⟩ := (checkOutput_ok params tx 0 mid txout).mp first
      omega
    · rintro ⟨_, nonNegative, total⟩
      have low := sum_nonneg tx.vout nonNegative
      omega

theorem checkTransaction_ok (params : CChainParams) (tx : CTransaction) :
    checkTransaction params tx = .ok () ↔ PassesOtherChecks params tx := by
  have shape : checkTransaction params tx = .ok () ↔
      tx.vin ≠ [] ∧ tx.vout ≠ [] ∧ tx.getSerializeSize ≤ MAX_BLOCK_SIZE_CURRENT ∧
        (∃ total, tx.vout.foldlM (checkOutput params tx) 0 = .ok total) ∧
        (if tx.isCoinBase then forM (tx.vin.take 1) checkScriptSigSize
          else forM tx.vin checkPrevout) = .ok () := by
    simp [checkTransaction, checkDuplicateInputs_empty]
  rw [shape]
  constructor
  · rintro ⟨vin, vout, size, outputs, scripts⟩
    refine ⟨vin, vout, size, (checkOutputs_iff params tx vout).mp outputs, ?_, ?_⟩
    · intro coinbase txin present
      rw [if_pos coinbase, take_one_of_isCoinBase tx coinbase, forM_ok]
        at scripts
      exact (checkScriptSigSize_ok txin).mp (scripts txin present)
    · intro spending txin present
      rw [if_neg (by simp [spending]), forM_ok] at scripts
      exact (checkPrevout_ok txin).mp (scripts txin present)
  · rintro ⟨vin, vout, size, outputs, coinbase, prevouts⟩
    refine ⟨vin, vout, size, (checkOutputs_iff params tx vout).mpr outputs, ?_⟩
    cases kind : tx.isCoinBase with
    | true =>
        rw [if_pos rfl, take_one_of_isCoinBase tx kind, forM_ok]
        exact fun txin present => (checkScriptSigSize_ok txin).mpr (coinbase kind txin present)
    | false =>
        rw [if_neg (by simp), forM_ok]
        exact fun txin present => (checkPrevout_ok txin).mpr (prevouts kind txin present)

theorem spendsOnce_of_nodup (tx : CTransaction) (distinct : tx.prevouts.Nodup) : SpendsOnce tx := by
  refine ⟨distinct, ?_, ?_⟩
  · intro hasher view nHeight have_inputs
    cases kind : tx.isCoinBase with
    | true =>
        rw [view.updateCoins_coinBase tx nHeight kind]
        rfl
    | false =>
        rw [view.updateCoins_isSome tx nHeight kind, CCoinsView.spendInputs_isSome]
        refine ⟨distinct, ?_⟩
        simpa [CCoinsView.haveInputs, kind] using have_inputs
  · intro view have_inputs spending
    rw [view.getValueIn_eq tx spending have_inputs, List.sum_toFinset _ distinct]

theorem updateCoins_repeated [TxHasher] (tx : CTransaction) (view : CCoinsView) (nHeight : Nat)
    (spending : tx.isCoinBase = false) (repeated : ¬ tx.prevouts.Nodup) :
    view.updateCoins tx nHeight = none := by
  rw [← Option.not_isSome_iff_eq_none, view.updateCoins_isSome tx nHeight spending,
    CCoinsView.spendInputs_isSome]
  exact fun ⟨distinct, _⟩ => repeated distinct

theorem checkTransaction_spendsOnce_iff (params : CChainParams) (tx : CTransaction) :
    (checkTransaction params tx = .ok () → SpendsOnce tx) ↔
      (PassesOtherChecks params tx → tx.prevouts.Nodup) := by
  rw [checkTransaction_ok]
  constructor
  · intro once passes
    exact (once passes).distinct
  · intro distinct passes
    exact spendsOnce_of_nodup tx (distinct passes)

def doubleInput : CTransaction where
  nVersion := 1
  vin := [⟨⟨1, 0⟩, [], 0xffffffff⟩, ⟨⟨1, 0⟩, [], 0xffffffff⟩]
  vout := [⟨1, [0x51]⟩]
  nLockTime := 0

theorem checkTransaction_accepts_doubleInput :
    ¬ (checkTransaction CChainParams.mainParams doubleInput = .ok () → SpendsOnce doubleInput) := by
  intro once
  have accepted : checkTransaction CChainParams.mainParams doubleInput = .ok () := by
    decide
  exact absurd (once accepted).distinct (by decide)

end CryptoYen
