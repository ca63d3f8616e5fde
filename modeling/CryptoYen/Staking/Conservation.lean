import CryptoYen.Staking.CoinStake

set_option autoImplicit false

namespace CryptoYen

namespace CWallet

variable (wallet : CWallet)

def paid : List CTxOut := wallet.payments.paid wallet.kernel.params wallet.kernel.chainActive

def paidTotal : Int := (wallet.paid.map CTxOut.nValue).sum

def kernelCoin [TxHasher] [KernelHasher] (nBits : BitVec 32) : Option CCryptoYenStake :=
  wallet.nReserveBalance.bind fun nReserveBalance =>
    (wallet.selectStakeCoins (wallet.balance - nReserveBalance)).find? fun stakeInput =>
      (wallet.findKernel nBits stakeInput).isSome && (wallet.stakerScript stakeInput).isSome

/-- Behind the empty marker stand the staker's own outputs and then one output of the right amount
for every masternode level that is paid; the staker's outputs add up to the kernel coin and the
reward without those payments. -/
def Conserves (stakeInput : CCryptoYenStake) (txCoinStake : CTransaction) : Prop :=
  ∃ own scriptPubKey, wallet.stakerScript stakeInput = some scriptPubKey ∧
    txCoinStake.vout = CTxOut.empty :: own ++ wallet.paid ∧
    (∀ txout ∈ own, txout.scriptPubKey = scriptPubKey) ∧
    (own.map CTxOut.nValue).sum = stakeInput.getValue + wallet.nReward - wallet.paidTotal

theorem signInput_frame (txNew signed : CTransaction) (nIn : Nat)
    (done : wallet.signInput txNew nIn = some signed) :
    signed.vout = txNew.vout ∧ signed.prevouts = txNew.prevouts := by
  obtain ⟨scriptSig, _, rfl⟩ := Option.map_eq_some_iff.mp done
  constructor
  · rfl
  · simp only [CTransaction.prevouts]
    apply List.ext_getElem?
    intro index
    by_cases same : nIn = index
    · subst same
      cases at_nIn : txNew.vin[nIn]? <;> simp [at_nIn]
    · simp [same]

theorem foldlM_signInput_frame (positions : List Nat) (txNew signed : CTransaction)
    (done : positions.foldlM wallet.signInput txNew = some signed) :
    signed.vout = txNew.vout ∧ signed.prevouts = txNew.prevouts := by
  induction positions generalizing txNew with
  | nil =>
      cases done
      exact ⟨rfl, rfl⟩
  | cons nIn rest ih =>
      rw [List.foldlM_cons] at done
      obtain ⟨next, first, others⟩ := Option.bind_eq_some_iff.mp done
      obtain ⟨vout, prevouts⟩ := wallet.signInput_frame txNew next nIn first
      obtain ⟨restVout, restPrevouts⟩ := ih next others
      exact ⟨restVout.trans vout, restPrevouts.trans prevouts⟩

theorem coinStakeOutputs_eq (vout : List CTxOut) (nCredit : Int) :
    wallet.coinStakeOutputs vout nCredit =
      adjustOutputs (CTxOut.empty :: vout ++ wallet.paid) (nCredit - wallet.paidTotal) := by
  simp only [coinStakeOutputs, MasternodePayments.fillBlockPayee_eq, paid, paidTotal]

theorem createTxOuts_some (stakeInput : CCryptoYenStake) (nTotal : Int) (vout : List CTxOut)
    (created : wallet.createTxOuts stakeInput nTotal = some vout) :
    ∃ scriptPubKey, wallet.stakerScript stakeInput = some scriptPubKey ∧
      vout = ⟨0, scriptPubKey⟩ :: if wallet.splits nTotal then [⟨0, scriptPubKey⟩] else [] := by
  simp only [createTxOuts] at created
  split at created
  next => cases created
  next scriptPubKey found =>
    refine ⟨scriptPubKey, found, ?_⟩
    split at created
    next split =>
      cases created
      simp [split]
    next whole =>
      cases created
      simp [whole]

theorem createTxOuts_isSome (stakeInput : CCryptoYenStake) (nTotal : Int) :
    (wallet.createTxOuts stakeInput nTotal).isSome = (wallet.stakerScript stakeInput).isSome := by
  simp only [createTxOuts]
  split
  next none => simp [none]
  next scriptPubKey found =>
    rw [found]
    split <;> rfl

theorem finishCoinStake_ok [TxHasher] (txNew txCoinStake : CTransaction)
    (stakeInput : CCryptoYenStake) (vout : List CTxOut)
    (finished : wallet.finishCoinStake txNew stakeInput vout = .ok txCoinStake) :
    txCoinStake.vout = wallet.coinStakeOutputs vout (stakeInput.getValue + wallet.nReward) ∧
      txCoinStake.prevouts = [⟨stakeInput.txFrom.getHash, stakeInput.nPosition⟩] := by
  simp only [finishCoinStake] at finished
  split at finished
  next => cases finished
  next =>
    split at finished
    next => cases finished
    next signed signing =>
      cases finished
      exact wallet.foldlM_signInput_frame _ _ _ signing

theorem searchInputs_ok [TxHasher] [KernelHasher] (txNew txCoinStake : CTransaction)
    (nBits : BitVec 32) (nTxNewTime : Nat) (listInputs : List CCryptoYenStake)
    (made : wallet.searchInputs txNew nBits listInputs = .ok (txCoinStake, nTxNewTime)) :
    ∃ stakeInput vout,
      listInputs.find? (fun stakeInput =>
        (wallet.findKernel nBits stakeInput).isSome && (wallet.stakerScript stakeInput).isSome) =
          some stakeInput ∧
      wallet.createTxOuts stakeInput (stakeInput.getValue + wallet.nReward) = some vout ∧
      wallet.finishCoinStake txNew stakeInput vout = .ok txCoinStake := by
  induction listInputs with
  | nil => cases made
  | cons stakeInput rest ih =>
      have script := wallet.createTxOuts_isSome stakeInput (stakeInput.getValue + wallet.nReward)
      simp only [searchInputs] at made
      split at made
      next => cases made
      next =>
        split at made
        next noKernel =>
          simpa only [List.find?_cons, noKernel, Option.isSome_none, Bool.false_and] using ih made
        next time isKernel =>
          split at made
          next noOutputs =>
            rw [noOutputs] at script
            simpa only [List.find?_cons, ← script, Option.isSome_none, Bool.and_false] using ih made
          next vout outputs =>
            obtain ⟨finished, same⟩ : wallet.finishCoinStake txNew stakeInput vout = .ok txCoinStake ∧
                time = nTxNewTime := by
              cases result : wallet.finishCoinStake txNew stakeInput vout with
              | error text => simp [result, Except.map] at made
              | ok tx => simpa [result, Except.map] using made
            rw [outputs] at script
            refine ⟨stakeInput, vout, ?_, outputs, finished⟩
            simp only [List.find?_cons, isKernel, ← script, Option.isSome_some, Bool.and_self]

theorem findKernel_some [TxHasher] [KernelHasher] (nBits : BitVec 32)
    (stakeInput : CCryptoYenStake) (isKernel : (wallet.findKernel nBits stakeInput).isSome) :
    5 * COIN ≤ stakeInput.getValue ∧ 1 ≤ wallet.kernel.chainActive.height := by
  simp only [findKernel] at isKernel
  split at isKernel
  next => cases isKernel
  next pindex found =>
    have below := stakeInput.getIndexFrom_height wallet.kernel wallet.linked pindex found
    split at isKernel
    next => cases isKernel
    next above =>
      split at isKernel
      next => cases isKernel
      next enough => constructor <;> omega

theorem adjustOutputs_whole (scriptPubKey : CScript) (rest : List CTxOut) (nCredit : Int)
    (other : rest.length ≠ 1) :
    adjustOutputs (CTxOut.empty :: ⟨0, scriptPubKey⟩ :: rest) nCredit =
      CTxOut.empty :: ⟨nCredit, scriptPubKey⟩ :: rest := by
  simp [adjustOutputs, other]

theorem adjustOutputs_halves (scriptPubKey : CScript) (third : CTxOut) (nCredit : Int) :
    adjustOutputs [CTxOut.empty, ⟨0, scriptPubKey⟩, third] nCredit =
      [CTxOut.empty, ⟨(nCredit.tdiv 2).tdiv CENT * CENT, scriptPubKey⟩,
        { third with nValue := nCredit - (nCredit.tdiv 2).tdiv CENT * CENT }] := by
  simp [adjustOutputs]

theorem second_half_bound (nCredit : Int) (nonneg : 0 ≤ nCredit) :
    nCredit ≤ 2 * (nCredit - (nCredit.tdiv 2).tdiv CENT * CENT) := by
  rw [Int.tdiv_eq_ediv_of_nonneg nonneg,
    Int.tdiv_eq_ediv_of_nonneg (Int.ediv_nonneg nonneg (by decide))]
  simp only [CENT]
  omega

theorem paid_length_one (payment : CTxOut) (single : wallet.paid = [payment])
    (started : 1 ≤ wallet.kernel.chainActive.height) :
    0 ≤ payment.nValue ∧ payment.nValue ≤ 20000000 := by
  have bound :=
    wallet.payments.paid_bound wallet.kernel.params wallet.kernel.chainActive payment
      (by rw [paid] at single; simp [single])
  have reward :=
    getBlockValue_le wallet.kernel.params wallet.kernel.chainActive
      wallet.kernel.chainActive.height started
  constructor <;> omega

theorem conserves_of_outputs (stakeInput : CCryptoYenStake) (scriptPubKey : CScript)
    (txCoinStake : CTransaction) (own : List CTxOut)
    (script : wallet.stakerScript stakeInput = some scriptPubKey)
    (outputs : txCoinStake.vout = CTxOut.empty :: own ++ wallet.paid)
    (scripts : ∀ txout ∈ own, txout.scriptPubKey = scriptPubKey)
    (total : (own.map CTxOut.nValue).sum =
      stakeInput.getValue + wallet.nReward - wallet.paidTotal) :
    wallet.Conserves stakeInput txCoinStake :=
  ⟨own, scriptPubKey, script, outputs, scripts, total⟩

/-- Two own outputs, or any number of payments but one: the code finds its own outputs again. -/
theorem coinStakeOutputs_conserve (stakeInput : CCryptoYenStake) (txCoinStake : CTransaction)
    (vout : List CTxOut)
    (created : wallet.createTxOuts stakeInput (stakeInput.getValue + wallet.nReward) = some vout)
    (outputs : txCoinStake.vout =
      wallet.coinStakeOutputs vout (stakeInput.getValue + wallet.nReward))
    (recognized : wallet.splits (stakeInput.getValue + wallet.nReward) = true ∨
      wallet.paid.length ≠ 1) :
    wallet.Conserves stakeInput txCoinStake := by
  obtain ⟨scriptPubKey, script, rfl⟩ := wallet.createTxOuts_some stakeInput _ vout created
  rw [coinStakeOutputs_eq] at outputs
  by_cases split : wallet.splits (stakeInput.getValue + wallet.nReward) = true
  · rw [if_pos split] at outputs
    cases payments : wallet.paid with
    | nil =>
        -- the split outputs are the only ones besides the marker
        rw [payments, List.append_nil, adjustOutputs_halves] at outputs
        apply wallet.conserves_of_outputs stakeInput scriptPubKey txCoinStake _ script
        · rw [payments, List.append_nil]
          exact outputs
        · simp
        · simp only [List.map_cons, List.map_nil, List.sum_cons, List.sum_nil]
          omega
    | cons payment others =>
        apply wallet.conserves_of_outputs stakeInput scriptPubKey txCoinStake
          [⟨stakeInput.getValue + wallet.nReward - wallet.paidTotal, scriptPubKey⟩,
            ⟨0, scriptPubKey⟩] script
        · rw [outputs]
          exact adjustOutputs_whole scriptPubKey (⟨0, scriptPubKey⟩ :: wallet.paid) _
            (by simp [payments])
        · simp
        · simp
  · have several : wallet.paid.length ≠ 1 := by
      cases recognized with
      | inl isSplit => exact absurd isSplit split
      | inr several => exact several
    rw [if_neg split] at outputs
    apply wallet.conserves_of_outputs stakeInput scriptPubKey txCoinStake
      [⟨stakeInput.getValue + wallet.nReward - wallet.paidTotal, scriptPubKey⟩] script
    · rw [outputs]
      exact adjustOutputs_whole scriptPubKey wallet.paid _ several
    · simp
    · simp

/-- One own output and one payment: the payment receives half of the stake. -/
theorem coinStakeOutputs_confused [TxHasher] [KernelHasher] (nBits : BitVec 32)
    (stakeInput : CCryptoYenStake) (txCoinStake : CTransaction) (vout : List CTxOut)
    (isKernel : (wallet.findKernel nBits stakeInput).isSome)
    (created : wallet.createTxOuts stakeInput (stakeInput.getValue + wallet.nReward) = some vout)
    (outputs : txCoinStake.vout =
      wallet.coinStakeOutputs vout (stakeInput.getValue + wallet.nReward))
    (whole : wallet.splits (stakeInput.getValue + wallet.nReward) = false)
    (single : wallet.paid.length = 1) : ¬ wallet.Conserves stakeInput txCoinStake := by
  intro conserves
  obtain ⟨scriptPubKey, script, rfl⟩ := wallet.createTxOuts_some stakeInput _ vout created
  obtain ⟨payment, payments⟩ := List.length_eq_one_iff.mp single
  obtain ⟨enough, started⟩ := wallet.findKernel_some nBits stakeInput isKernel
  obtain ⟨low, high⟩ := wallet.paid_length_one payment payments started
  have reward : 0 ≤ wallet.nReward := getBlockValue_nonneg _ _ _
  have total : wallet.paidTotal = payment.nValue := by simp [paidTotal, payments]
  have half := second_half_bound (stakeInput.getValue + wallet.nReward - wallet.paidTotal)
    (by simp only [COIN] at enough; omega)
  rw [coinStakeOutputs_eq, payments, whole] at outputs
  obtain ⟨own, _, _, expected, _, _⟩ := conserves
  rw [outputs, payments] at expected
  simp only [Bool.false_eq_true, ↓reduceIte, List.cons_append, List.nil_append,
    adjustOutputs_halves, List.cons.injEq, true_and] at expected
  have last := congrArg List.getLast? expected
  have value : stakeInput.getValue + wallet.nReward - wallet.paidTotal -
      ((stakeInput.getValue + wallet.nReward - wallet.paidTotal).tdiv 2).tdiv CENT * CENT =
        payment.nValue := by
    simpa using congrArg (Option.map CTxOut.nValue) last
  simp only [COIN] at enough
  omega

theorem createCoinStake_ok [TxHasher] [KernelHasher] (txNew txCoinStake : CTransaction)
    (nBits : BitVec 32) (nTxNewTime : Nat)
    (made : wallet.createCoinStake txNew nBits = .ok (txCoinStake, nTxNewTime)) :
    ∃ stakeInput vout, wallet.kernelCoin nBits = some stakeInput ∧
      wallet.createTxOuts stakeInput (stakeInput.getValue + wallet.nReward) = some vout ∧
      wallet.finishCoinStake txNew stakeInput vout = .ok txCoinStake := by
  simp only [createCoinStake] at made
  split at made
  next => cases made
  next nReserveBalance reserve =>
    split at made
    next => cases made
    next =>
      obtain ⟨stakeInput, vout, first, created, finished⟩ :=
        wallet.searchInputs_ok txNew txCoinStake nBits nTxNewTime _ made
      refine ⟨stakeInput, vout, ?_, created, finished⟩
      rw [kernelCoin, reserve]
      exact first

/-- CreateCoinStake keeps the staker's value exactly when the kernel is split or the number of paid
levels is not one. -/
theorem createCoinStake_conserves_iff [TxHasher] [KernelHasher]
    (txNew txCoinStake : CTransaction) (nBits : BitVec 32) (nTxNewTime : Nat)
    (made : wallet.createCoinStake txNew nBits = .ok (txCoinStake, nTxNewTime)) :
    ∃ stakeInput, wallet.kernelCoin nBits = some stakeInput ∧
      txCoinStake.prevouts = [⟨stakeInput.txFrom.getHash, stakeInput.nPosition⟩] ∧
      (wallet.Conserves stakeInput txCoinStake ↔
        wallet.splits (stakeInput.getValue + wallet.nReward) = true ∨ wallet.paid.length ≠ 1) := by
  obtain ⟨stakeInput, vout, kernel, created, finished⟩ :=
    wallet.createCoinStake_ok txNew txCoinStake nBits nTxNewTime made
  obtain ⟨outputs, prevouts⟩ := wallet.finishCoinStake_ok txNew txCoinStake stakeInput vout finished
  refine ⟨stakeInput, kernel, prevouts, ?_⟩
  constructor
  · intro conserves
    by_contra confused
    obtain ⟨whole, single⟩ := not_or.mp confused
    obtain ⟨_, _, first⟩ := Option.bind_eq_some_iff.mp kernel
    have isKernel := List.find?_some first
    simp only [Bool.and_eq_true] at isKernel
    exact wallet.coinStakeOutputs_confused nBits stakeInput txCoinStake vout isKernel.1 created
      outputs (by simpa using whole) (not_not.mp single) conserves
  · intro recognized
    exact wallet.coinStakeOutputs_conserve stakeInput txCoinStake vout created outputs recognized

end CWallet

def stakingKey : List UInt8 := 2 :: List.replicate 32 7
def payToStakingKey : CScript := CScript.pushData stakingKey ++ [OP_CHECKSIG]
def stakingSignature : CScript := CScript.pushData (48 :: List.replicate 70 1)

def maturedStake : CCryptoYenStake where
  txFrom := { nVersion := 1, vin := [], vout := [⟨10 * COIN, payToStakingKey⟩], nLockTime := 0 }
  nPosition := 0
  inRange := by decide

def soloStaker (payees : Nat → Option CScript) : CWallet where
  kernel :=
    { params := CChainParams.mainParams
      chainActive :=
        [⟨1, 1, 1, 20000, 0x1e0fffff, 1000000 * COIN⟩, ⟨0, 0, 1, 10000, 0x1e0fffff, 0⟩]
      getTransaction := fun _ => some (maturedStake.txFrom, 1)
      getKernelStakeModifier := fun _ => some 0 }
  linked := by simp [CChain.Linked]
  payments := ⟨fun _ mnlevel => payees mnlevel, fun _ => none⟩
  nAdjustedTime := 100000
  balance := 10 * COIN
  nReserveBalance := some 0
  fStake := true
  availableCoins := [⟨maturedStake, 100, 20000⟩]
  interrupted := fun _ => false
  solver := fun script => if script = payToStakingKey then some (.pubkey, [stakingKey]) else none
  getKey := fun _ => none
  nStakeSplitThreshold := 2000
  signSignature := fun _ _ => some stakingSignature

@[reducible] def zeroTxHasher : TxHasher := ⟨fun _ => 0⟩
@[reducible] def zeroKernelHasher : KernelHasher := ⟨fun _ _ _ _ => 0⟩

def emptyTransaction : CTransaction := ⟨1, [], [], 0⟩

def wholeCoinStake : CTransaction where
  nVersion := 1
  vin := [⟨⟨0, 0⟩, stakingSignature, 0xffffffff⟩]
  vout := [CTxOut.empty, ⟨1020000000, payToStakingKey⟩]
  nLockTime := 0

theorem soloStaker_creates : @CWallet.createCoinStake (soloStaker fun _ => none) zeroTxHasher
    zeroKernelHasher emptyTransaction 0x1e0fffff = .ok (wholeCoinStake, 100150) := by
  decide +kernel

theorem createCoinStake_conserves_unpaid :
    @CWallet.createCoinStake (soloStaker fun _ => none) zeroTxHasher zeroKernelHasher
        emptyTransaction 0x1e0fffff = .ok (wholeCoinStake, 100150) ∧
      ∃ stakeInput, (soloStaker fun _ => none).Conserves stakeInput wholeCoinStake := by
  constructor
  · exact soloStaker_creates
  · obtain ⟨stakeInput, _, _, conserves⟩ :=
      @CWallet.createCoinStake_conserves_iff (soloStaker fun _ => none) zeroTxHasher
        zeroKernelHasher emptyTransaction wholeCoinStake 0x1e0fffff 100150 soloStaker_creates
    exact ⟨stakeInput, conserves.mpr (.inr (by decide))⟩

def confusedCoinStake : CTransaction where
  nVersion := 1
  vin := [⟨⟨0, 0⟩, stakingSignature, 0xffffffff⟩]
  vout := [CTxOut.empty, ⟨509000000, payToStakingKey⟩, ⟨509600000, [OP_RETURN]⟩]
  nLockTime := 0

theorem createCoinStake_pays_masternode_half :
    @CWallet.createCoinStake
        (soloStaker fun mnlevel => if mnlevel = 1 then some [OP_RETURN] else none) zeroTxHasher
        zeroKernelHasher emptyTransaction 0x1e0fffff = .ok (confusedCoinStake, 100150) ∧
      (soloStaker fun mnlevel => if mnlevel = 1 then some [OP_RETURN] else none).paid =
        [⟨1400000, [OP_RETURN]⟩] ∧
      ∀ stakeInput,
        ¬ (soloStaker fun mnlevel => if mnlevel = 1 then some [OP_RETURN] else none).Conserves
          stakeInput confusedCoinStake := by
  have payments : (soloStaker fun mnlevel => if mnlevel = 1 then some [OP_RETURN] else none).paid =
      [⟨1400000, [OP_RETURN]⟩] := by
    decide +kernel
  refine ⟨by decide +kernel, payments, ?_⟩
  intro stakeInput conserves
  obtain ⟨own, _, _, outputs, _⟩ := conserves
  rw [payments] at outputs
  have last := congrArg List.getLast? outputs
  rw [List.getLast?_append] at last
  simp [confusedCoinStake] at last

end CryptoYen
