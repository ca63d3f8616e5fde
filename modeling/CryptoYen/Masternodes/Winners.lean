import CryptoYen.Library.Machine
import CryptoYen.Masternodes.Payees

set_option autoImplicit false

namespace CryptoYen

structure CMasternodePaymentWinner where
  vinMasternode : CTxIn
  nBlockHeight : Int
  payee : CScript
  vchSig : List UInt8
  payeeLevel : Nat
  deriving DecidableEq, Repr

-- Hash of the payee, the height and the masternode's outpoint, without level and signature.
class WinnerHasher where
  hash : CScript → Int → COutPoint → Uint256

def CMasternodePaymentWinner.getHash [WinnerHasher] (winner : CMasternodePaymentWinner) : Uint256 :=
  WinnerHasher.hash winner.payee winner.nBlockHeight winner.vinMasternode.prevout

abbrev WinnerItem := Sigma fun _ : Uint256 => CMasternodePaymentWinner

structure CMasternodePayments where
  mapMasternodePayeeVotes : AList fun _ : Uint256 => CMasternodePaymentWinner
  mapMasternodeBlocks : AList fun _ : Int => CMasternodeBlockPayees

/-- What the payments read of the node: hashes of blocks by height, the tip's height when cs_main is
free and there is a tip, and the number of masternodes. -/
structure PaymentsContext where
  getBlockHash : Int → Option Uint256
  nTipHeight : Option Int
  mnodemanSize : Nat

namespace CMasternodePayments

def empty : CMasternodePayments := ⟨∅, ∅⟩

def clear (_payments : CMasternodePayments) : CMasternodePayments := empty

def blockPayees (payments : CMasternodePayments) (nBlockHeight : Int) : CMasternodeBlockPayees :=
  (payments.mapMasternodeBlocks.lookup nBlockHeight).getD ⟨nBlockHeight, []⟩

def storeWinner [WinnerHasher] (payments : CMasternodePayments)
    (winner : CMasternodePaymentWinner) : CMasternodePayments where
  mapMasternodePayeeVotes := payments.mapMasternodePayeeVotes.insert winner.getHash winner
  mapMasternodeBlocks :=
    payments.mapMasternodeBlocks.insert winner.nBlockHeight
      ((payments.blockPayees winner.nBlockHeight).addPayee winner.payeeLevel winner.payee 1)

def newWinner [WinnerHasher] (payments : CMasternodePayments) (ctx : PaymentsContext)
    (winner : CMasternodePaymentWinner) : Bool :=
  (ctx.getBlockHash (winner.nBlockHeight - 100)).isSome &&
    (payments.mapMasternodePayeeVotes.lookup winner.getHash).isNone

def addWinningMasternode [WinnerHasher] (payments : CMasternodePayments) (ctx : PaymentsContext)
    (winner : CMasternodePaymentWinner) : CMasternodePayments × Bool :=
  if payments.newWinner ctx winner then (payments.storeWinner winner, true) else (payments, false)

def nLimit (ctx : PaymentsContext) : Int := max ((ctx.mnodemanSize * 5 / 4 : Nat) : Int) 1000

def outdated (ctx : PaymentsContext) (nHeight : Int) (winner : CMasternodePaymentWinner) : Bool :=
  nLimit ctx < nHeight - winner.nBlockHeight

def cleanWinner (ctx : PaymentsContext) (nHeight : Int) (payments : CMasternodePayments)
    (item : WinnerItem) : CMasternodePayments :=
  if outdated ctx nHeight item.2 then
    { mapMasternodePayeeVotes := payments.mapMasternodePayeeVotes.erase item.1
      mapMasternodeBlocks := payments.mapMasternodeBlocks.erase item.2.nBlockHeight }
  else payments

def cleanPaymentList (payments : CMasternodePayments) (ctx : PaymentsContext) :
    CMasternodePayments :=
  match ctx.nTipHeight with
  | none => payments
  | some nHeight =>
      payments.mapMasternodePayeeVotes.entries.foldl (cleanWinner ctx nHeight) payments

def getBlockPayee (payments : CMasternodePayments) (nBlockHeight : Int) (mnlevel : Nat) :
    Option CScript :=
  (payments.mapMasternodeBlocks.lookup nBlockHeight).bind fun block => block.getPayee mnlevel

def isTransactionValid (payments : CMasternodePayments) (params : CChainParams)
    (chainActive : CChain) (txNew : CTransaction) (nBlockHeight : Int) : Bool :=
  match payments.mapMasternodeBlocks.lookup nBlockHeight with
  | some block => block.isTransactionValid params chainActive txNew
  | none => true

end CMasternodePayments

inductive PaymentsOp
  | addWinningMasternode (ctx : PaymentsContext) (winner : CMasternodePaymentWinner)
  | cleanPaymentList (ctx : PaymentsContext)
  | clear

def CMasternodePayments.step [WinnerHasher] (payments : CMasternodePayments) :
    PaymentsOp → Option CMasternodePayments
  | .addWinningMasternode ctx winner => some (payments.addWinningMasternode ctx winner).1
  | .cleanPaymentList ctx => some (payments.cleanPaymentList ctx)
  | .clear => some payments.clear

theorem CMasternodePayments.run_preserves [WinnerHasher] (holds : CMasternodePayments → Prop)
    (fresh : holds .empty)
    (stores : ∀ payments winner, holds payments → holds (payments.storeWinner winner))
    (cleans : ∀ ctx nHeight payments item,
      holds payments → holds (cleanWinner ctx nHeight payments item))
    (ops : List PaymentsOp) (final : CMasternodePayments)
    (ran : Machine.run step .empty ops = some final) : holds final := by
  refine Machine.run_invariant step (fun _ _ => True) holds (fun payments op next held _ stepped => ?_)
    .empty final ops fresh (Machine.along_true _ _ _) ran
  cases op with
  | addWinningMasternode ctx winner =>
      cases stepped
      simp only [addWinningMasternode]
      split
      next => exact stores payments winner held
      next => exact held
  | cleanPaymentList ctx =>
      cases stepped
      unfold cleanPaymentList
      split
      next => exact held
      next nHeight _ =>
        exact List.foldlRecOn _ (cleanWinner ctx nHeight) held fun state kept item _ =>
          cleans ctx nHeight state item kept
  | clear =>
      cases stepped
      exact fresh

end CryptoYen
