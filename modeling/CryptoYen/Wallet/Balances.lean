import CryptoYen.Consensus.CheckInputs
import CryptoYen.Primitives.MerkleTree
import CryptoYen.Wallet.CachedCredits

set_option autoImplicit false

namespace CryptoYen

namespace Wallet

def ISMINE_ALL : IsMineFilter := ISMINE_WATCH_ONLY ||| ISMINE_SPENDABLE

def SWIFTTX_SIGNATURES_REQUIRED : Int := 6

structure MerkleWalletTx extends CWalletTx where
  hashBlock : Uint256
  vMerkleBranch : List Uint256
  nIndex : Int
  -- Set by the first check that passes, so that the next ones are left out.
  fMerkleVerified : Bool

structure BalanceWallet where
  mapWallet : List (Uint256 × MerkleWalletTx)
  mapTxSpends : List (COutPoint × Uint256)
  node : NodeContext
  hashMerkleRoot : Uint256 → Uint256
  inMempool : Uint256 → Bool
  fLargeWorkForkFound : Bool
  fLargeWorkInvalidChainFound : Bool
  fEnableSwiftTX : Bool
  -- The signatures of the locks in mapTxLocks.
  countSignatures : Uint256 → Option Int
  -- Clamped to 0..60 by AppInit2.
  nSwiftTXDepth : Nat
  bSpendZeroConfChange : Bool
  -- What depths and spends do not decide.
  credits : CreditView

namespace BalanceWallet

section getters

variable [TxHasher] [MerkleHasher] (wallet : BalanceWallet)

def getDepthInMainChainINTERNAL (wtx : MerkleWalletTx) : Int :=
  if wtx.hashBlock = 0 ∨ wtx.nIndex = -1 then 0
  else
    -- Find the block it claims to be in
    match wallet.node.mapBlockIndex wtx.hashBlock with
    | some (pindex :: _) =>
        if wallet.node.chainActive.contains pindex = false then 0
        -- Make sure the merkle branch connects to this block
        else if wtx.fMerkleVerified = false ∧
            CBlock.checkMerkleBranch wtx.tx.getHash wtx.vMerkleBranch wtx.nIndex ≠
              wallet.hashMerkleRoot wtx.hashBlock then 0
        else wallet.node.chainActive.height - pindex.nHeight + 1
    | _ => 0

def getTransactionLockSignatures (wtx : MerkleWalletTx) : Int :=
  if wallet.fLargeWorkForkFound || wallet.fLargeWorkInvalidChainFound then -2
  else if wallet.fEnableSwiftTX = false then -1
  else (wallet.countSignatures wtx.tx.getHash).getD (-1)

-- With the bonus for SwiftTX (enableIX).
def getDepthInMainChain (wtx : MerkleWalletTx) : Int :=
  let nResult := wallet.getDepthInMainChainINTERNAL wtx
  if nResult = 0 ∧ wallet.inMempool wtx.tx.getHash = false then -1
  else if nResult < 6 ∧ SWIFTTX_SIGNATURES_REQUIRED ≤ wallet.getTransactionLockSignatures wtx then
    wallet.nSwiftTXDepth + nResult
  else nResult

def getBlocksToMaturity (wtx : MerkleWalletTx) : Int :=
  if wtx.tx.isCoinBase || wtx.tx.isCoinStake then
    max 0 (wallet.node.params.nMaturity + 1 - wallet.getDepthInMainChain wtx)
  else 0

def getWalletTx (hash : Uint256) : Option MerkleWalletTx := wallet.mapWallet.lookup hash

def isSpent (hash : Uint256) (n : Nat) : Bool :=
  wallet.mapTxSpends.any fun spend =>
    spend.1 == ⟨hash, n⟩ &&
      (wallet.getWalletTx spend.2).any fun wtx => decide (0 ≤ wallet.getDepthInMainChain wtx)

def prevOut (prevout : COutPoint) : Option CTxOut :=
  (wallet.getWalletTx prevout.hash).bind fun prev => prev.tx.vout[prevout.n]?

def view (wtx : MerkleWalletTx) : CreditView :=
  { wallet.credits with
    params := wallet.node.params
    prevOut := wallet.prevOut
    isSpent := wallet.isSpent
    getBlocksToMaturity := fun _ => wallet.getBlocksToMaturity wtx
    isInMainChain := fun _ => decide (0 < wallet.getDepthInMainChainINTERNAL wtx) }

variable [ScriptCrypto]

def isOwnInput (txin : CTxIn) : Bool :=
  (wallet.prevOut txin.prevout).any fun parentOut =>
    wallet.credits.isMine parentOut.scriptPubKey == .spendable

-- IsFromMe reads the cached debit, or leaves it.
def isTrusted (wtx : MerkleWalletTx) : Except String Bool × CWalletTx :=
  if isFinalTx wallet.node wtx.tx 0 0 = false then (.ok false, wtx.toCWalletTx)
  else
    let nDepth := wallet.getDepthInMainChain wtx
    if 1 ≤ nDepth then (.ok true, wtx.toCWalletTx)
    else if nDepth < 0 then (.ok false, wtx.toCWalletTx)
    else if wallet.bSpendZeroConfChange = false then (.ok false, wtx.toCWalletTx)
    else
      match wtx.toCWalletTx.getDebit true (wallet.view wtx) ISMINE_ALL with
      | (.error thrown, kept) => (.error thrown, kept)
      | (.ok nDebit, kept) => (.ok (decide (0 < nDebit) && wtx.tx.vin.all wallet.isOwnInput), kept)

def trustedCredit (wtx : MerkleWalletTx) : Except String Int × CWalletTx :=
  match wallet.isTrusted wtx with
  | (.error thrown, kept) => (.error thrown, kept)
  | (.ok false, kept) => (.ok 0, kept)
  | (.ok true, kept) => kept.getAvailableCredit true (wallet.view wtx)

def sumCredits (credit : MerkleWalletTx → Except String Int × CWalletTx) :
    List (Uint256 × MerkleWalletTx) → Except String Int × List (Uint256 × MerkleWalletTx)
  | [] => (.ok 0, [])
  | (hash, wtx) :: rest =>
      match credit wtx with
      | (.error thrown, kept) => (.error thrown, (hash, { wtx with toCWalletTx := kept }) :: rest)
      | (.ok nCredit, kept) =>
          let (total, later) := sumCredits credit rest
          (total.map (nCredit + ·), (hash, { wtx with toCWalletTx := kept }) :: later)

def getBalance : Except String Int × List (Uint256 × MerkleWalletTx) :=
  sumCredits wallet.trustedCredit wallet.mapWallet

def getImmatureBalance : Except String Int × List (Uint256 × MerkleWalletTx) :=
  sumCredits (fun wtx => wtx.toCWalletTx.getImmatureCredit true (wallet.view wtx)) wallet.mapWallet

end getters

section sums

variable {A : Type} {credits : CreditView} {message : String}

theorem foldlM_addInRange (value : A → Except String Int) (amount : A → Int)
    (amounts : ∀ x m, value x = .ok m → m = amount x) (xs : List A) (start n : Int)
    (ran : xs.foldlM (fun total x => addInRange credits message total (value x)) start = .ok n) :
    n = start + (xs.map amount).sum := by
  induction xs generalizing start with
  | nil =>
      cases ran
      simp
  | cons x xs ih =>
      rw [List.foldlM_cons] at ran
      cases computed : value x with
      | error thrown =>
          rw [computed] at ran
          cases ran
      | ok m =>
          rw [computed, addInRange] at ran
          split_ifs at ran with inRange
          · rw [ih (start + m) ran, amounts x m computed, List.map_cons, List.sum_cons,
              Int.add_assoc]
          · cases ran

theorem sum_filter (xs : List A) (counts : A → Bool) (amount : A → Int) :
    ((xs.filter counts).map amount).sum =
      (xs.map fun x => if counts x then amount x else 0).sum := by
  induction xs with
  | nil => rfl
  | cons x xs ih =>
      rw [List.map_cons, List.sum_cons, ← ih, List.filter_cons]
      split
      · rw [List.map_cons, List.sum_cons]
      · rw [Int.zero_add]

theorem sumCredits_sum (credit : MerkleWalletTx → Except String Int × CWalletTx)
    (share : MerkleWalletTx → Int) (entries : List (Uint256 × MerkleWalletTx)) (total : Int)
    (shares : ∀ entry ∈ entries, ∀ n, (credit entry.2).1 = .ok n → n = share entry.2)
    (ran : (sumCredits credit entries).1 = .ok total) :
    total = (entries.map fun entry => share entry.2).sum := by
  induction entries generalizing total with
  | nil =>
      cases ran
      rfl
  | cons entry rest ih =>
      obtain ⟨hash, wtx⟩ := entry
      have here := shares (hash, wtx) List.mem_cons_self
      rw [sumCredits] at ran
      generalize credit wtx = read at ran here
      obtain ⟨value, kept⟩ := read
      cases value with
      | error thrown => cases ran
      | ok nCredit =>
          dsimp only at ran
          cases later : (sumCredits credit rest).1 with
          | error thrown =>
              rw [later] at ran
              cases ran
          | ok others =>
              rw [later] at ran
              cases ran
              rw [List.map_cons, List.sum_cons, ← here nCredit rfl,
                ← ih others (fun entry mem => shares entry (List.mem_cons_of_mem _ mem)) later]

end sums

section paid

def paid (wallet : BalanceWallet) (txout : CTxOut) : Int :=
  if hasFilter wallet.credits txout ISMINE_SPENDABLE then txout.nValue else 0

theorem creditOf_paid {wallet : BalanceWallet} (credits : CreditView) (same : credits.isMine = wallet.credits.isMine)
    (txout : CTxOut) (n : Int) (returned : creditOf credits ISMINE_SPENDABLE txout = .ok n) :
    n = wallet.paid txout := by
  have filters : hasFilter credits txout ISMINE_SPENDABLE =
      hasFilter wallet.credits txout ISMINE_SPENDABLE := by rw [hasFilter, same, hasFilter]
  rw [creditOf] at returned
  split_ifs at returned
  all_goals cases returned
  all_goals rw [paid, ← filters]
  · rw [if_pos ‹_›]
  · rw [if_neg ‹_›]

theorem getDebit_keeps [TxHasher] [ScriptCrypto] (credits : CreditView) (filter : IsMineFilter) (kept : CWalletTx) :
    (kept.getDebit true credits filter).2.tx = kept.tx ∧
      (kept.getDebit true credits filter).2.pwallet = kept.pwallet := by
  have part (part : IsMineFilter) (kind : CacheKind) (old : CWalletTx) :
      (cachedPart true credits part filter kind old).2.tx = old.tx ∧
        (cachedPart true credits part filter kind old).2.pwallet = old.pwallet := by
    rw [cachedPart]
    split
    · exact ⟨rfl, rfl⟩
    · exact ⟨rfl, rfl⟩
  rw [CWalletTx.getDebit]
  split
  · exact ⟨rfl, rfl⟩
  · rw [cachedSum]
    have first := part ISMINE_SPENDABLE .debit kept
    generalize cachedPart true credits ISMINE_SPENDABLE filter .debit kept = read at first
    obtain ⟨value, next⟩ := read
    cases value with
    | error thrown => exact first
    | ok nFirst =>
        dsimp only at first ⊢
        have second := part ISMINE_WATCH_ONLY .watchDebit next
        generalize cachedPart true credits ISMINE_WATCH_ONLY filter .watchDebit next = read
          at second
        obtain ⟨value, last⟩ := read
        cases value <;> exact ⟨second.1.trans first.1, second.2.trans first.2⟩

end paid

section shares

variable [TxHasher] [MerkleHasher] [ScriptCrypto] (wallet : BalanceWallet) (wtx : MerkleWalletTx)

def availableShare (i : Nat) (txout : CTxOut) : Int :=
  if (wallet.isTrusted wtx).1 = .ok true ∧ wtx.pwallet = true ∧
      isUnripe (wallet.view wtx) wtx.tx = false ∧ wallet.isSpent wtx.tx.getHash i = false then
    wallet.paid txout
  else 0

def immatureShare (txout : CTxOut) : Int :=
  if isImmature (wallet.view wtx) wtx.tx then wallet.paid txout else 0

def Coherent : Prop :=
  ∀ entry ∈ wallet.mapWallet,
    Agree (wallet.view entry.2) entry.2.toCWalletTx entry.2.toCWalletTx

variable {wallet wtx}

omit [ScriptCrypto] in
theorem walletCredit_paid (n : Int)
    (returned : walletCredit (wallet.view wtx) wtx.tx ISMINE_SPENDABLE = .ok n) :
    n = (wtx.tx.vout.map wallet.paid).sum := by
  have sum := foldlM_addInRange _ wallet.paid
    (fun txout m => creditOf_paid (wallet.view wtx) rfl txout m) wtx.tx.vout 0 n returned
  rwa [Int.zero_add] at sum

omit [ScriptCrypto] in
theorem creditOfOutputs_paid (counts : Nat → Bool) (message : String) (n : Int)
    (returned : creditOfOutputs (wallet.view wtx) wtx.tx counts ISMINE_SPENDABLE message = .ok n) :
    n = (wtx.tx.vout.zipIdx.map fun output =>
      if counts output.2 then wallet.paid output.1 else 0).sum := by
  have sum := foldlM_addInRange _ (fun output : CTxOut × Nat => wallet.paid output.1)
    (fun output m => creditOf_paid (wallet.view wtx) rfl output.1 m) _ 0 n returned
  rwa [Int.zero_add, sum_filter] at sum

theorem isTrusted_keeps (agree : Agree (wallet.view wtx) wtx.toCWalletTx wtx.toCWalletTx) :
    (wallet.isTrusted wtx).2.tx = wtx.tx ∧ (wallet.isTrusted wtx).2.pwallet = wtx.pwallet ∧
      Agree (wallet.view wtx) (wallet.isTrusted wtx).2 (wallet.isTrusted wtx).2 := by
  rw [isTrusted]
  dsimp only
  split_ifs
  case neg =>
    have fields := getDebit_keeps (wallet.view wtx) ISMINE_ALL wtx.toCWalletTx
    have next : Agree (wallet.view wtx)
        (wtx.toCWalletTx.getDebit true (wallet.view wtx) ISMINE_ALL).2
        (wtx.toCWalletTx.getDebit true (wallet.view wtx) ISMINE_ALL).2 :=
      ⟨rfl, rfl, (Getter.read_agree (.getDebit ISMINE_ALL) agree).2.coherent⟩
    generalize wtx.toCWalletTx.getDebit true (wallet.view wtx) ISMINE_ALL = read at fields next ⊢
    obtain ⟨value, kept⟩ := read
    cases value <;> exact ⟨fields.1, fields.2, next⟩
  all_goals exact ⟨rfl, rfl, agree⟩

theorem trustedCredit_sum (agree : Agree (wallet.view wtx) wtx.toCWalletTx wtx.toCWalletTx)
    (n : Int) (returned : (wallet.trustedCredit wtx).1 = .ok n) :
    n = (wtx.tx.vout.zipIdx.map fun output => wallet.availableShare wtx output.2 output.1).sum := by
  obtain ⟨sameTx, samePwallet, coherent⟩ := isTrusted_keeps agree
  have none (closed : ∀ i txout, wallet.availableShare wtx i txout = 0) :
      (wtx.tx.vout.zipIdx.map fun output => wallet.availableShare wtx output.2 output.1).sum = 0 := by
    simp only [closed, List.map_const', List.sum_replicate, nsmul_zero]
  rw [trustedCredit] at returned
  cases trusted : wallet.isTrusted wtx with
  | mk value kept =>
  rw [trusted] at returned sameTx samePwallet coherent
  cases value with
  | error thrown => cases returned
  | ok isTrusted =>
      cases isTrusted with
      | false =>
          cases returned
          refine (none fun i txout => if_neg fun share => ?_).symm
          rw [trusted] at share
          cases share.1
      | true =>
          have same := (Getter.read_agree .getAvailableCredit coherent).1
          change (kept.getAvailableCredit true (wallet.view wtx)).1 = .ok n at returned
          change (kept.getAvailableCredit true (wallet.view wtx)).1 =
            (kept.getAvailableCredit false (wallet.view wtx)).1 at same
          rw [same, CWalletTx.getAvailableCredit, CWalletTx.ripeCredit, sameTx, samePwallet]
            at returned
          split_ifs at returned with unbound unripe
          · cases returned
            refine (none fun i txout => if_neg fun share => ?_).symm
            rw [unbound] at share
            cases share.2.1
          · cases returned
            refine (none fun i txout => if_neg fun share => ?_).symm
            rw [unripe] at share
            cases share.2.2.1
          · rw [cachedValue] at returned
            dsimp only at returned
            rw [Memo.fetch_off, sameTx] at returned
            rw [creditOfOutputs_paid (fun i => !wallet.isSpent wtx.tx.getHash i) _ n returned]
            refine congrArg List.sum (List.map_congr_left fun output _ => ?_)
            rw [availableShare, trusted]
            refine if_congr ?_ rfl rfl
            rw [Bool.not_eq_true']
            exact ⟨fun unspent => ⟨rfl, (Bool.not_eq_false _).mp unbound,
              (Bool.not_eq_true _).mp unripe, unspent⟩, fun share => share.2.2.2⟩

theorem immatureCredit_sum (agree : Agree (wallet.view wtx) wtx.toCWalletTx wtx.toCWalletTx)
    (n : Int) (returned : (wtx.toCWalletTx.getImmatureCredit true (wallet.view wtx)).1 = .ok n) :
    n = (wtx.tx.vout.map fun txout => wallet.immatureShare wtx txout).sum := by
  have same := (Getter.read_agree .getImmatureCredit agree).1
  change (wtx.toCWalletTx.getImmatureCredit true (wallet.view wtx)).1 =
    (wtx.toCWalletTx.getImmatureCredit false (wallet.view wtx)).1 at same
  rw [same, CWalletTx.getImmatureCredit] at returned
  split_ifs at returned with immature
  · rw [cachedValue] at returned
    dsimp only at returned
    rw [Memo.fetch_off] at returned
    rw [walletCredit_paid n returned]
    simp only [immatureShare, if_pos immature]
  · cases returned
    simp only [immatureShare, if_neg immature, List.map_const', List.sum_replicate, nsmul_zero]

theorem getBalance_sum (coherent : wallet.Coherent) (total : Int)
    (returned : wallet.getBalance.1 = .ok total) :
    total = (wallet.mapWallet.map fun entry =>
      (entry.2.tx.vout.zipIdx.map fun output =>
        wallet.availableShare entry.2 output.2 output.1).sum).sum :=
  sumCredits_sum _ (fun wtx => (wtx.tx.vout.zipIdx.map fun output =>
    wallet.availableShare wtx output.2 output.1).sum) wallet.mapWallet total
    (fun entry mem n => trustedCredit_sum (coherent entry mem) n) returned

theorem getImmatureBalance_sum (coherent : wallet.Coherent) (total : Int)
    (returned : wallet.getImmatureBalance.1 = .ok total) :
    total = (wallet.mapWallet.map fun entry =>
      (entry.2.tx.vout.map fun txout => wallet.immatureShare entry.2 txout).sum).sum :=
  sumCredits_sum _ (fun wtx => (wtx.tx.vout.map fun txout =>
    wallet.immatureShare wtx txout).sum) wallet.mapWallet total
    (fun entry mem n => immatureCredit_sum (coherent entry mem) n) returned

end shares

section exclusive

theorem coinStake_not_coinBase {tx : CTransaction} (stake : tx.isCoinStake = true) :
    tx.isCoinBase = false := by
  rw [CTransaction.isCoinStake] at stake
  rw [CTransaction.isCoinBase]
  split at stake
  next txin others first second more vin vout =>
    rw [Bool.and_eq_true, Bool.not_eq_true'] at stake
    rw [vin]
    cases others with
    | nil => exact stake.1
    | cons => rfl
  next => cases stake

variable [TxHasher] [MerkleHasher] [ScriptCrypto] (wallet : BalanceWallet)

/-- A coinstake in the main chain that is not mature yet, with an output that nothing has spent. -/
def ImmatureStake (wtx : MerkleWalletTx) (i : Nat) (txout : CTxOut) : Prop :=
  wtx.pwallet = true ∧ wtx.tx.isCoinStake = true ∧ isFinalTx wallet.node wtx.tx 0 0 = true ∧
    0 < wallet.getDepthInMainChainINTERNAL wtx ∧
    wallet.getDepthInMainChain wtx ≤ wallet.node.params.nMaturity ∧
    wallet.isSpent wtx.tx.getHash i = false ∧ wallet.paid txout ≠ 0

variable {wallet} {wtx : MerkleWalletTx}

omit [ScriptCrypto] in
theorem getDepthInMainChain_le (deep : 0 < wallet.getDepthInMainChainINTERNAL wtx) :
    wallet.getDepthInMainChainINTERNAL wtx ≤ wallet.getDepthInMainChain wtx := by
  rw [getDepthInMainChain]
  split_ifs <;> omega

theorem isTrusted_iff (deep : 0 < wallet.getDepthInMainChainINTERNAL wtx) :
    (wallet.isTrusted wtx).1 = .ok true ↔ isFinalTx wallet.node wtx.tx 0 0 = true := by
  have depth := getDepthInMainChain_le deep
  rw [isTrusted]
  by_cases final : isFinalTx wallet.node wtx.tx 0 0 = false
  · rw [if_pos final, final]
    exact ⟨nofun, nofun⟩
  · rw [if_neg final, if_pos (show 1 ≤ wallet.getDepthInMainChain wtx by omega)]
    exact ⟨fun _ => (Bool.not_eq_false _).mp final, fun _ => rfl⟩

omit [ScriptCrypto] in
theorem getBlocksToMaturity_stake (stake : wtx.tx.isCoinStake = true) :
    0 < wallet.getBlocksToMaturity wtx ↔
      wallet.getDepthInMainChain wtx ≤ wallet.node.params.nMaturity := by
  rw [getBlocksToMaturity, stake, Bool.or_true, if_pos rfl]
  omega

omit [ScriptCrypto] in
theorem isUnripe_view : isUnripe (wallet.view wtx) wtx.tx =
    (wtx.tx.isCoinBase && decide (0 < wallet.getBlocksToMaturity wtx)) := rfl

omit [ScriptCrypto] in
theorem isImmature_view : isImmature (wallet.view wtx) wtx.tx =
    ((wtx.tx.isCoinBase || wtx.tx.isCoinStake) && decide (0 < wallet.getBlocksToMaturity wtx) &&
      decide (0 < wallet.getDepthInMainChainINTERNAL wtx)) := rfl

theorem shares_iff (i : Nat) (txout : CTxOut) :
    (wallet.availableShare wtx i txout ≠ 0 ∧ wallet.immatureShare wtx txout ≠ 0) ↔
      wallet.ImmatureStake wtx i txout := by
  rw [availableShare, immatureShare, isUnripe_view, isImmature_view, ImmatureStake]
  simp only [Bool.and_eq_true, Bool.or_eq_true, decide_eq_true_eq, Bool.and_eq_false_iff,
    decide_eq_false_iff_not, ne_eq, ite_eq_right_iff, Classical.not_imp]
  constructor
  · rintro ⟨⟨⟨trusted, bound, unripe, unspent⟩, paid⟩, ⟨⟨kind, immature⟩, deep⟩, -⟩
    have notBase : wtx.tx.isCoinBase = false := by
      rcases unripe with notBase | ripe
      · exact notBase
      · exact absurd immature ripe
    have stake : wtx.tx.isCoinStake = true := by
      rcases kind with base | stake
      · rw [notBase] at base
        cases base
      · exact stake
    exact ⟨bound, stake, (isTrusted_iff deep).mp trusted, deep,
      (getBlocksToMaturity_stake stake).mp immature, unspent, paid⟩
  · rintro ⟨bound, stake, final, deep, shallow, unspent, paid⟩
    exact ⟨⟨⟨(isTrusted_iff deep).mpr final, bound, Or.inl (coinStake_not_coinBase stake), unspent⟩,
      paid⟩, ⟨⟨Or.inr stake, (getBlocksToMaturity_stake stake).mpr shallow⟩, deep⟩, paid⟩

/-- The balances are the sums of what the outputs contribute, and no unspent output contributes to
both exactly when the wallet has no immature coinstake with one. -/
theorem available_or_immature_iff (wallet : BalanceWallet) :
    (wallet.Coherent → ∀ total,
      (wallet.getBalance.1 = .ok total → total = (wallet.mapWallet.map fun entry =>
        (entry.2.tx.vout.zipIdx.map fun output =>
          wallet.availableShare entry.2 output.2 output.1).sum).sum) ∧
      (wallet.getImmatureBalance.1 = .ok total → total = (wallet.mapWallet.map fun entry =>
        (entry.2.tx.vout.map fun txout => wallet.immatureShare entry.2 txout).sum).sum)) ∧
    ((∀ entry ∈ wallet.mapWallet, ∀ output ∈ entry.2.tx.vout.zipIdx,
        wallet.isSpent entry.2.tx.getHash output.2 = false →
          ¬ (wallet.availableShare entry.2 output.2 output.1 ≠ 0 ∧
            wallet.immatureShare entry.2 output.1 ≠ 0)) ↔
      ∀ entry ∈ wallet.mapWallet, ∀ output ∈ entry.2.tx.vout.zipIdx,
        ¬ wallet.ImmatureStake entry.2 output.2 output.1) := by
  refine ⟨fun coherent total => ⟨getBalance_sum coherent total, getImmatureBalance_sum coherent total⟩,
    ?_⟩
  constructor
  · intro exclusive entry entryMem output outputMem stake
    exact exclusive entry entryMem output outputMem stake.2.2.2.2.2.1
      ((shares_iff output.2 output.1).mpr stake)
  · intro none entry entryMem output outputMem _ both
    exact none entry entryMem output outputMem ((shares_iff output.2 output.1).mp both)

end exclusive

section counted

def stakeTx : CTransaction :=
  ⟨1, [⟨⟨7, 1⟩, [], 0xffffffff⟩], [⟨0, []⟩, ⟨5 * COIN, [0x51]⟩], 0⟩

def stakeWallet : BalanceWallet where
  mapWallet := [(0, ⟨CWalletTx.init stakeTx, 9, [], 0, true⟩)]
  mapTxSpends := []
  node :=
    { params := CChainParams.mainParams
      chainActive := ⟨10, 300, 5, 0, 0x1e0fffff, 0⟩ :: [⟨9, 291, 5, 0, 0x1e0fffff, 0⟩]
      mapBlockIndex := fun hash => if hash = 9 then some [⟨9, 291, 5, 0, 0x1e0fffff, 0⟩] else none
      mapLockedInputs := fun _ => none
      nAdjustedTime := 0
      fInitialBlockDownload := false
      nMaxReorgDepth := 100
      nScriptCheckThreads := 0
      verifyScript := fun _ _ _ _ => none }
  hashMerkleRoot _ := 0
  inMempool _ := false
  fLargeWorkForkFound := false
  fLargeWorkInvalidChainFound := false
  fEnableSwiftTX := true
  countSignatures _ := none
  nSwiftTXDepth := 5
  bSpendZeroConfChange := true
  credits := coinbaseView .spendable

theorem stakeWallet_counts_twice :
    letI := zeroHashes
    letI := zeroDigests
    letI := linearHasher
    stakeWallet.getBalance.1 = .ok (5 * COIN) ∧ stakeWallet.getImmatureBalance.1 = .ok (5 * COIN) ∧
      ¬ ∀ entry ∈ stakeWallet.mapWallet, ∀ output ∈ entry.2.tx.vout.zipIdx,
        stakeWallet.isSpent entry.2.tx.getHash output.2 = false →
          ¬ (stakeWallet.availableShare entry.2 output.2 output.1 ≠ 0 ∧
            stakeWallet.immatureShare entry.2 output.1 ≠ 0) := by
  decide

end counted

end BalanceWallet

end Wallet

end CryptoYen
