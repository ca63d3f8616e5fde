import CryptoYen.Primitives.Script
import CryptoYen.Staking.Kernel
import CryptoYen.Staking.Payments

set_option autoImplicit false

namespace CryptoYen

inductive TxOutType
  | nonstandard | pubkey | pubkeyhash | scripthash | multisig | nullData
  deriving DecidableEq, Repr

structure COutput where
  stake : CCryptoYenStake
  nDepth : Int
  nTxTime : Int

/-- The wallet and what CreateCoinStake asks of the rest of the node. An invalid -reservebalance
argument is none. -/
structure CWallet where
  kernel : KernelContext
  linked : kernel.chainActive.Linked
  payments : MasternodePayments
  nAdjustedTime : Nat
  balance : Int
  nReserveBalance : Option Int
  fStake : Bool
  availableCoins : List COutput
  -- IsLocked() || ShutdownRequested() when the loop reaches an input
  interrupted : CCryptoYenStake → Bool
  solver : CScript → Option (TxOutType × List (List UInt8))
  getKey : List UInt8 → Option (List UInt8)
  nStakeSplitThreshold : BitVec 64
  signSignature : CTransaction → Nat → Option CScript

def DEFAULT_BLOCK_MAX_SIZE : Nat := 750000

namespace CWallet

variable (wallet : CWallet)

def selectStakeCoin (nTargetAmount : Int) (selected : List CCryptoYenStake × Int) (out : COutput) :
    List CCryptoYenStake × Int :=
  let (listInputs, nAmountSelected) := selected
  let minDepth := if out.stake.txFrom.isCoinStake then wallet.kernel.params.nMaturity else 10
  if nTargetAmount < nAmountSelected + out.stake.getValue then selected
  else if wallet.nAdjustedTime - out.nTxTime < (nStakeMinAge : Int) then selected
  else if out.nDepth < minDepth then selected
  else (listInputs ++ [out.stake], nAmountSelected + out.stake.getValue)

def selectStakeCoins (nTargetAmount : Int) : List CCryptoYenStake :=
  if wallet.fStake then
    (wallet.availableCoins.foldl (wallet.selectStakeCoin nTargetAmount) ([], 0)).1
  else []

def stakerScript (stakeInput : CCryptoYenStake) : Option CScript :=
  match wallet.solver stakeInput.prevTxOut.scriptPubKey with
  | some (.pubkey, _) => some stakeInput.prevTxOut.scriptPubKey
  | some (.pubkeyhash, vSolutions) =>
      (wallet.getKey (vSolutions.headD [])).map fun pubKey =>
        CScript.pushData pubKey ++ [OP_CHECKSIG]
  | _ => none

-- nStakeSplitThreshold * COIN is an unsigned product, cast to CAmount afterwards.
def splits (nTotal : Int) : Bool :=
  (wallet.nStakeSplitThreshold * BitVec.ofInt 64 COIN).toInt < nTotal.tdiv 2

def createTxOuts (stakeInput : CCryptoYenStake) (nTotal : Int) : Option (List CTxOut) :=
  match wallet.stakerScript stakeInput with
  | none => none
  | some scriptPubKey =>
      if wallet.splits nTotal then some [⟨0, scriptPubKey⟩, ⟨0, scriptPubKey⟩]
      else some [⟨0, scriptPubKey⟩]

/-- The tests of the loop before the reward is computed: the new transaction time when the input is
a kernel, none where the loop continues with the next input. -/
def findKernel [TxHasher] [KernelHasher] (nBits : BitVec 32) (stakeInput : CCryptoYenStake) :
    Option Nat :=
  match stakeInput.getIndexFrom wallet.kernel with
  | none => none
  | some pindex =>
      if pindex.nHeight < 1 then none
      else if stakeInput.getValue < 5 * COIN then none
      else
        match stake wallet.kernel stakeInput nBits pindex.nTime wallet.nAdjustedTime with
        | none => none
        | some (nTxNewTime, _) =>
            if (nTxNewTime : Int) ≤ wallet.kernel.chainActive.getMedianTimePast ∧
                wallet.kernel.params.networkID ≠ .regtest then none
            else some nTxNewTime

def nReward : Int :=
  getBlockValue wallet.kernel.params wallet.kernel.chainActive (wallet.kernel.chainActive.height + 1)

-- The split below recognizes its own two outputs by the size of vout alone.
def adjustOutputs (vout : List CTxOut) (nCredit : Int) : List CTxOut :=
  if vout.length = 3 then
    let half := ((nCredit.tdiv 2).tdiv CENT) * CENT
    (vout.modify 1 fun out => { out with nValue := half }).modify 2 fun out =>
      { out with nValue := nCredit - half }
  else vout.modify 1 fun out => { out with nValue := nCredit }

def coinStakeOutputs (vout : List CTxOut) (nCredit : Int) : List CTxOut :=
  let mnblock_value :=
    getBlockValue wallet.kernel.params wallet.kernel.chainActive wallet.kernel.chainActive.height
  let filled :=
    wallet.payments.fillBlockPayee wallet.kernel.params wallet.kernel.chainActive
      (CTxOut.empty :: vout) mnblock_value
  adjustOutputs filled.1 (nCredit - filled.2)

def signInput (txNew : CTransaction) (nIn : Nat) : Option CTransaction :=
  (wallet.signSignature txNew nIn).map fun scriptSig =>
    { txNew with vin := txNew.vin.modify nIn fun txin => { txin with scriptSig := scriptSig } }

def signInputs (txNew : CTransaction) : Option CTransaction :=
  (List.range txNew.vin.length).foldlM wallet.signInput txNew

def finishCoinStake [TxHasher] (txNew : CTransaction) (stakeInput : CCryptoYenStake)
    (vout : List CTxOut) : Except String CTransaction :=
  let txNew :=
    { txNew with
      vin := []
      vout := wallet.coinStakeOutputs vout (stakeInput.getValue + wallet.nReward) }
  if DEFAULT_BLOCK_MAX_SIZE / 5 ≤ txNew.getSerializeSize then
    throw "CreateCoinStake : exceeded coinstake size limit"
  else
    match wallet.signInputs { txNew with vin := [stakeInput.createTxIn] } with
    | none => throw "CreateCoinStake : failed to sign coinstake"
    | some txNew => pure txNew

def searchInputs [TxHasher] [KernelHasher] (txNew : CTransaction) (nBits : BitVec 32) :
    List CCryptoYenStake → Except String (CTransaction × Nat)
  | [] => throw "no kernel found"
  | stakeInput :: listInputs =>
      if wallet.interrupted stakeInput then throw "locked or shutting down"
      else
        match wallet.findKernel nBits stakeInput with
        | none => searchInputs txNew nBits listInputs
        | some nTxNewTime =>
            match wallet.createTxOuts stakeInput (stakeInput.getValue + wallet.nReward) with
            | none => searchInputs txNew nBits listInputs
            | some vout =>
                (wallet.finishCoinStake txNew stakeInput vout).map fun txNew => (txNew, nTxNewTime)

def createCoinStake [TxHasher] [KernelHasher] (txNew : CTransaction) (nBits : BitVec 32) :
    Except String (CTransaction × Nat) :=
  match wallet.nReserveBalance with
  | none => throw "CreateCoinStake : invalid reserve balance amount"
  | some nReserveBalance =>
      if 0 < wallet.balance ∧ wallet.balance ≤ nReserveBalance then throw "nothing to stake"
      else
        wallet.searchInputs txNew nBits
          (wallet.selectStakeCoins (wallet.balance - nReserveBalance))

end CWallet

end CryptoYen
