import CryptoYen.Coins.View
import CryptoYen.Consensus.Chain
import CryptoYen.Consensus.CheckTransaction
import CryptoYen.Script.Encoding

set_option autoImplicit false

namespace CryptoYen

structure NodeContext where
  params : CChainParams
  chainActive : CChain
  mapBlockIndex : Uint256 → Option CChain
  mapLockedInputs : COutPoint → Option Uint256
  nAdjustedTime : Int
  fInitialBlockDownload : Bool
  nMaxReorgDepth : Nat
  nScriptCheckThreads : Nat
  -- VerifyScript for an input against the script it spends; the error's text when it fails.
  verifyScript : BitVec 32 → CTransaction → Nat → CScript → Option String

def LOCKTIME_THRESHOLD : Nat := 500000000

def MANDATORY_SCRIPT_VERIFY_FLAGS : BitVec 32 := SCRIPT_VERIFY_P2SH

def STANDARD_SCRIPT_VERIFY_FLAGS : BitVec 32 :=
  MANDATORY_SCRIPT_VERIFY_FLAGS ||| SCRIPT_VERIFY_DERSIG ||| SCRIPT_VERIFY_STRICTENC |||
    SCRIPT_VERIFY_MINIMALDATA ||| SCRIPT_VERIFY_NULLDUMMY |||
    SCRIPT_VERIFY_DISCOURAGE_UPGRADABLE_NOPS

def STANDARD_NOT_MANDATORY_VERIFY_FLAGS : BitVec 32 :=
  STANDARD_SCRIPT_VERIFY_FLAGS &&& ~~~MANDATORY_SCRIPT_VERIFY_FLAGS

def MAX_BLOCK_SIGOPS : Nat := MAX_BLOCK_SIZE_CURRENT / 50
def MAX_TX_SIGOPS : Nat := MAX_BLOCK_SIGOPS / 5

def isFinalTx (ctx : NodeContext) (tx : CTransaction) (nBlockHeight nBlockTime : Int) : Bool :=
  let nBlockHeight := if nBlockHeight = 0 then ctx.chainActive.height else nBlockHeight
  let nBlockTime := if nBlockTime = 0 then ctx.nAdjustedTime else nBlockTime
  tx.nLockTime == 0 ||
    (tx.nLockTime : Int) < (if tx.nLockTime < LOCKTIME_THRESHOLD then nBlockHeight else nBlockTime) ||
    tx.vin.all CTxIn.isFinal

def getLegacySigOpCount (tx : CTransaction) : Nat :=
  (tx.vin.map fun txin => CScript.getSigOpCount txin.scriptSig false).sum +
    (tx.vout.map fun txout => CScript.getSigOpCount txout.scriptPubKey false).sum

def inputSigOps (inputs : CCoinsView) (txin : CTxIn) : Option Nat :=
  (inputs.getOutputFor txin).map fun prevout =>
    if CScript.isPayToScriptHash prevout.scriptPubKey then
      CScript.getP2SHSigOpCount prevout.scriptPubKey txin.scriptSig
    else 0

def getP2SHSigOpCount (tx : CTransaction) (inputs : CCoinsView) : Option Nat :=
  if tx.isCoinBase then some 0
  else (tx.vin.mapM (inputSigOps inputs)).map List.sum

-- No outpoint is valid from the height on at which the list of invalid ones is enforced.
def validOutPoint (params : CChainParams) (nHeight : Int) : Bool :=
  !(params.nBlockEnforceInvalidUTXO ≤ nHeight)

def checkInput (ctx : NodeContext) (inputs : CCoinsView) (nSpendHeight : Int) (nValueIn : Int)
    (txin : CTxIn) : Except Failure Int := do
  let coins := inputs.record txin.prevout.hash
  let txout ← assertion (inputs.coinAt txin.prevout)
  require
    (!((coins.fCoinBase || coins.fCoinStake) && nSpendHeight - coins.nHeight < ctx.params.nMaturity))
    (.dos 0 REJECT_INVALID "bad-txns-premature-spend-of-coinbase")
  require (moneyRange ctx.params txout.nValue && moneyRange ctx.params (nValueIn + txout.nValue))
    (.dos 100 REJECT_INVALID "bad-txns-inputvalues-outofrange")
  pure (nValueIn + txout.nValue)

def checkFee (params : CChainParams) (tx : CTransaction) (nValueIn : Int) : Check := do
  let nValueOut ← assertion tx.getValueOut
  require (!(nValueIn < nValueOut)) (.dos 100 REJECT_INVALID "bad-txns-in-belowout")
  require (!(nValueIn - nValueOut < 0)) (.dos 100 REJECT_INVALID "bad-txns-fee-negative")
  require (moneyRange params (nValueIn - nValueOut))
    (.dos 100 REJECT_INVALID "bad-txns-fee-outofrange")

def scriptCheck (ctx : NodeContext) (inputs : CCoinsView) (flags : BitVec 32) (tx : CTransaction)
    (nIn : Nat) (txin : CTxIn) : Except Failure (Option String) := do
  let txout ← assertion (inputs.coinAt txin.prevout)
  pure (ctx.verifyScript flags tx nIn txout.scriptPubKey)

def checkScript (ctx : NodeContext) (inputs : CCoinsView) (flags : BitVec 32) (tx : CTransaction)
    (input : CTxIn × Nat) : Check := do
  match ← scriptCheck ctx inputs flags tx input.2 input.1 with
  | none => pure ()
  | some error =>
      let failed := Failure.dos 100 REJECT_INVALID
        ("mandatory-script-verify-flag-failed (" ++ error ++ ")")
      if flags &&& STANDARD_NOT_MANDATORY_VERIFY_FLAGS = 0 then throw failed
      else
        -- The second check hides the first one's name, so its text is that of success.
        match ← scriptCheck ctx inputs (flags &&& ~~~STANDARD_NOT_MANDATORY_VERIFY_FLAGS) tx
            input.2 input.1 with
        | none =>
            throw (.dos 0 REJECT_NONSTANDARD "non-mandatory-script-verify-flag (No error)")
        | some _ => throw failed

-- CheckInputs without pvChecks; a coinstake may take out more than it brings in.
def checkInputsValue (ctx : NodeContext) (tx : CTransaction) (inputs : CCoinsView) : Check := do
  require (inputs.haveInputs tx) (.dos 0 0 "")
  match ctx.mapBlockIndex inputs.hashBlock with
  | none => throw .assertion
  | some pindexPrev =>
      let nValueIn ← tx.vin.foldlM (checkInput ctx inputs (pindexPrev.height + 1)) 0
      if tx.isCoinStake then pure () else checkFee ctx.params tx nValueIn

def checkInputs (ctx : NodeContext) (tx : CTransaction) (inputs : CCoinsView)
    (fScriptChecks : Bool) (flags : BitVec 32) : Check :=
  if tx.isCoinBase then pure ()
  else do
    checkInputsValue ctx tx inputs
    if fScriptChecks then forM tx.vin.zipIdx (checkScript ctx inputs flags tx) else pure ()

end CryptoYen
