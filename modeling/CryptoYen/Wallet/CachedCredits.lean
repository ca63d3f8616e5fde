import CryptoYen.Library.Memo
import CryptoYen.Wallet.AvailableCoins

set_option autoImplicit false

namespace CryptoYen

namespace Wallet

structure CreditView where
  params : CChainParams
  -- An output of a transaction of the wallet.
  prevOut : COutPoint → Option CTxOut
  isMine : CScript → IsMineType
  mapAddressBook : List CTxDestination
  isSpent : Uint256 → Nat → Bool
  isLockedCoin : Uint256 → Nat → Bool
  isDenominated : COutPoint → Bool
  getInputObfuscationRounds : COutPoint → Int
  nObfuscationRounds : Int
  fMasterNode : Bool
  getBlocksToMaturity : CTransaction → Int
  isInMainChain : CTransaction → Bool

-- Each with a flag and a value of its own (fDebitCached and nDebitCached, and so on).
inductive CacheKind
  | debit | credit | immatureCredit | availableCredit | anonymizableCredit | anonymizedCredit
  | denomUnconfCredit | denomConfCredit | watchDebit | watchCredit | immatureWatchCredit
  | availableWatchCredit | change
  deriving DecidableEq, Repr

structure CWalletTx where
  tx : CTransaction
  -- Whether there is a wallet; the getters that do not test this need one.
  pwallet : Bool
  caches : Memo.Table CacheKind Int

namespace CWalletTx

-- The flags in the order of MarkDirty, which has no line for the immature credit.
def dirtied : List CacheKind :=
  [.credit, .availableCredit, .anonymizableCredit, .anonymizedCredit, .denomUnconfCredit,
    .denomConfCredit, .watchDebit, .watchCredit, .availableWatchCredit, .immatureWatchCredit,
    .debit, .change]

def markDirty (wtx : CWalletTx) : CWalletTx :=
  { wtx with caches := Memo.invalidate dirtied wtx.caches }

end CWalletTx

section sums

variable (view : CreditView)

def addInRange (message : String) (nTotal : Int) (value : Except String Int) : Except String Int :=
  match value with
  | .error thrown => .error thrown
  | .ok n =>
      if moneyRange view.params (nTotal + n) then .ok (nTotal + n) else .error message

def hasFilter (txout : CTxOut) (filter : IsMineFilter) : Bool :=
  (view.isMine txout.scriptPubKey).bits &&& filter != 0

def debitOf (filter : IsMineFilter) (txin : CTxIn) : Int :=
  match view.prevOut txin.prevout with
  | none => 0
  | some prev => if hasFilter view prev filter then prev.nValue else 0

def walletDebit (tx : CTransaction) (filter : IsMineFilter) : Except String Int :=
  tx.vin.foldlM (fun nDebit txin =>
    addInRange view "CWallet::GetDebit() : value out of range" nDebit
      (.ok (debitOf view filter txin))) 0

def creditOf (filter : IsMineFilter) (txout : CTxOut) : Except String Int :=
  if moneyRange view.params txout.nValue then
    .ok (if hasFilter view txout filter then txout.nValue else 0)
  else .error "CWallet::GetCredit() : value out of range"

def walletCredit (tx : CTransaction) (filter : IsMineFilter) : Except String Int :=
  tx.vout.foldlM (fun nCredit txout =>
    addInRange view "CWallet::GetCredit() : value out of range" nCredit
      (creditOf view filter txout)) 0

def changeOf [ScriptCrypto] (txout : CTxOut) : Except String Int :=
  if moneyRange view.params txout.nValue then
    .ok (if isChange view.isMine view.mapAddressBook txout then txout.nValue else 0)
  else .error "CWallet::GetChange() : value out of range"

def walletChange [ScriptCrypto] (tx : CTransaction) : Except String Int :=
  tx.vout.foldlM (fun nChange txout =>
    addInRange view "CWallet::GetChange() : value out of range" nChange (changeOf view txout)) 0

def creditOfOutputs (tx : CTransaction) (counts : Nat → Bool) (filter : IsMineFilter)
    (message : String) : Except String Int :=
  (tx.vout.zipIdx.filter fun output => counts output.2).foldlM (fun nCredit output =>
    addInRange view message nCredit (creditOf view filter output.1)) 0

def isAnonymizable [TxHasher] (tx : CTransaction) (i : Nat) : Bool :=
  let rounds := view.getInputObfuscationRounds ⟨tx.getHash, i⟩
  !(view.isSpent tx.getHash i || view.isLockedCoin tx.getHash i) && !view.fMasterNode &&
    decide (-2 ≤ rounds) && decide (rounds < view.nObfuscationRounds)

def isAnonymizedOutput [TxHasher] (tx : CTransaction) (i : Nat) : Bool :=
  !(view.isSpent tx.getHash i || !view.isDenominated ⟨tx.getHash, i⟩) &&
    decide (view.nObfuscationRounds ≤ view.getInputObfuscationRounds ⟨tx.getHash, i⟩)

def compute [TxHasher] [ScriptCrypto] (tx : CTransaction) : CacheKind → Except String Int
  | .debit => walletDebit view tx ISMINE_SPENDABLE
  | .watchDebit => walletDebit view tx ISMINE_WATCH_ONLY
  | .credit => walletCredit view tx ISMINE_SPENDABLE
  | .watchCredit => walletCredit view tx ISMINE_WATCH_ONLY
  | .immatureCredit => walletCredit view tx ISMINE_SPENDABLE
  | .immatureWatchCredit => walletCredit view tx ISMINE_WATCH_ONLY
  | .availableCredit =>
      creditOfOutputs view tx (fun i => !view.isSpent tx.getHash i) ISMINE_SPENDABLE
        "CWalletTx::GetAvailableCredit() : value out of range"
  | .availableWatchCredit =>
      creditOfOutputs view tx (fun i => !view.isSpent tx.getHash i) ISMINE_WATCH_ONLY
        "CWalletTx::GetAvailableCredit() : value out of range"
  | .anonymizableCredit =>
      creditOfOutputs view tx (isAnonymizable view tx) ISMINE_SPENDABLE
        "CWalletTx::GetAnonamizableCredit() : value out of range"
  | .anonymizedCredit =>
      creditOfOutputs view tx (isAnonymizedOutput view tx) ISMINE_SPENDABLE
        "CWalletTx::GetAnonymizedCredit() : value out of range"
  | .change => walletChange view tx
  -- The getter of these is declared only.
  | .denomUnconfCredit => .ok 0
  | .denomConfCredit => .ok 0

def isUnripe (tx : CTransaction) : Bool :=
  tx.isCoinBase && decide (0 < view.getBlocksToMaturity tx)

def isImmature (tx : CTransaction) : Bool :=
  (tx.isCoinBase || tx.isCoinStake) && decide (0 < view.getBlocksToMaturity tx) &&
    view.isInMainChain tx

end sums

section getters

variable [TxHasher] [ScriptCrypto] (fUseCache : Bool) (view : CreditView)

def cachedValue (kind : CacheKind) (wtx : CWalletTx) : Except String Int × CWalletTx :=
  let (value, caches) := Memo.fetch fUseCache (compute view wtx.tx) kind wtx.caches
  (value, { wtx with caches })

def cachedPart (part filter : IsMineFilter) (kind : CacheKind) (wtx : CWalletTx) :
    Except String Int × CWalletTx :=
  if filter &&& part != 0 then cachedValue fUseCache view kind wtx else (.ok 0, wtx)

def cachedSum (filter : IsMineFilter) (spendable watch : CacheKind) (wtx : CWalletTx) :
    Except String Int × CWalletTx :=
  match cachedPart fUseCache view ISMINE_SPENDABLE filter spendable wtx with
  | (.error thrown, wtx) => (.error thrown, wtx)
  | (.ok nFirst, wtx) =>
      match cachedPart fUseCache view ISMINE_WATCH_ONLY filter watch wtx with
      | (.error thrown, wtx) => (.error thrown, wtx)
      | (.ok nSecond, wtx) => (.ok (nFirst + nSecond), wtx)

namespace CWalletTx

variable (wtx : CWalletTx)

-- GetDebit, GetCredit and GetChange have no argument for the cache, which is on in the source.
def getDebit (filter : IsMineFilter) : Except String Int × CWalletTx :=
  if wtx.tx.vin.isEmpty then (.ok 0, wtx) else cachedSum fUseCache view filter .debit .watchDebit wtx

def getCredit (filter : IsMineFilter) : Except String Int × CWalletTx :=
  if isUnripe view wtx.tx then (.ok 0, wtx)
  else cachedSum fUseCache view filter .credit .watchCredit wtx

def getImmatureCredit : Except String Int × CWalletTx :=
  if isImmature view wtx.tx then cachedValue fUseCache view .immatureCredit wtx else (.ok 0, wtx)

-- Without the coinstakes that GetImmatureCredit also values.
def getImmatureWatchOnlyCredit : Except String Int × CWalletTx :=
  if isUnripe view wtx.tx && view.isInMainChain wtx.tx then
    cachedValue fUseCache view .immatureWatchCredit wtx
  else (.ok 0, wtx)

def ripeCredit (kind : CacheKind) : Except String Int × CWalletTx :=
  if wtx.pwallet = false then (.ok 0, wtx)
  else if isUnripe view wtx.tx then (.ok 0, wtx)
  else cachedValue fUseCache view kind wtx

def getAvailableCredit : Except String Int × CWalletTx :=
  wtx.ripeCredit fUseCache view .availableCredit

def getAnonymizableCredit : Except String Int × CWalletTx :=
  wtx.ripeCredit fUseCache view .anonymizableCredit

def getAnonymizedCredit : Except String Int × CWalletTx :=
  wtx.ripeCredit fUseCache view .anonymizedCredit

def getAvailableWatchOnlyCredit : Except String Int × CWalletTx :=
  wtx.ripeCredit fUseCache view .availableWatchCredit

def getChange : Except String Int × CWalletTx := cachedValue fUseCache view .change wtx

end CWalletTx

inductive Getter
  | getDebit (filter : IsMineFilter)
  | getCredit (filter : IsMineFilter)
  | getImmatureCredit
  | getAvailableCredit
  | getAnonymizableCredit
  | getAnonymizedCredit
  | getImmatureWatchOnlyCredit
  | getAvailableWatchOnlyCredit
  | getChange
  deriving DecidableEq, Repr

def Getter.read (getter : Getter) (wtx : CWalletTx) : Except String Int × CWalletTx :=
  match getter with
  | getDebit filter => wtx.getDebit fUseCache view filter
  | getCredit filter => wtx.getCredit fUseCache view filter
  | getImmatureCredit => wtx.getImmatureCredit fUseCache view
  | getAvailableCredit => wtx.getAvailableCredit fUseCache view
  | getAnonymizableCredit => wtx.getAnonymizableCredit fUseCache view
  | getAnonymizedCredit => wtx.getAnonymizedCredit fUseCache view
  | getImmatureWatchOnlyCredit => wtx.getImmatureWatchOnlyCredit fUseCache view
  | getAvailableWatchOnlyCredit => wtx.getAvailableWatchOnlyCredit fUseCache view
  | getChange => wtx.getChange fUseCache view

def Getter.reads (getters : List Getter) (wtx : CWalletTx) : CWalletTx :=
  getters.foldl (fun wtx getter => (getter.read fUseCache view wtx).2) wtx

end getters

section coherence

variable [TxHasher] [ScriptCrypto] (view : CreditView)

-- The immature credit is only asked for while it is immature.
def Asked (tx : CTransaction) (kind : CacheKind) : Prop :=
  kind = .immatureCredit → isImmature view tx = true

structure Agree (wtx wtx' : CWalletTx) : Prop where
  tx : wtx.tx = wtx'.tx
  pwallet : wtx.pwallet = wtx'.pwallet
  coherent : Memo.Coherent (Asked view wtx.tx) (compute view wtx.tx) wtx.caches

def Matches (cached uncached : Except String Int × CWalletTx) : Prop :=
  cached.1 = uncached.1 ∧ Agree view cached.2 uncached.2

variable {view} {wtx wtx' : CWalletTx}

theorem Agree.cachedValue (agree : Agree view wtx wtx') (kind : CacheKind)
    (asked : Asked view wtx.tx kind) :
    Matches view (cachedValue true view kind wtx) (cachedValue false view kind wtx') := by
  refine ⟨?_, agree.tx, agree.pwallet, agree.coherent.fetch true kind⟩
  rw [Wallet.cachedValue, Wallet.cachedValue]
  dsimp only
  rw [agree.coherent.fetch_value true kind asked, Memo.fetch_off, agree.tx]

theorem Agree.cachedPart (agree : Agree view wtx wtx') (part filter : IsMineFilter)
    (kind : CacheKind) (asked : Asked view wtx.tx kind) :
    Matches view (cachedPart true view part filter kind wtx)
      (cachedPart false view part filter kind wtx') := by
  rw [Wallet.cachedPart, Wallet.cachedPart]
  split
  · exact agree.cachedValue kind asked
  · exact ⟨rfl, agree⟩

theorem Agree.cachedSum (agree : Agree view wtx wtx') (filter : IsMineFilter)
    (spendable watch : CacheKind) (first : ∀ tx, Asked view tx spendable)
    (second : ∀ tx, Asked view tx watch) :
    Matches view (cachedSum true view filter spendable watch wtx)
      (cachedSum false view filter spendable watch wtx') := by
  obtain ⟨value, agree⟩ := agree.cachedPart ISMINE_SPENDABLE filter spendable (first _)
  rw [Wallet.cachedSum, Wallet.cachedSum]
  generalize Wallet.cachedPart true view ISMINE_SPENDABLE filter spendable wtx = on at value agree
  generalize Wallet.cachedPart false view ISMINE_SPENDABLE filter spendable wtx' = off at value agree
  obtain ⟨onValue, on⟩ := on
  obtain ⟨offValue, off⟩ := off
  cases value
  cases onValue with
  | error thrown => exact ⟨rfl, agree⟩
  | ok nFirst =>
      dsimp only at agree ⊢
      obtain ⟨value, agree⟩ := agree.cachedPart ISMINE_WATCH_ONLY filter watch (second _)
      generalize Wallet.cachedPart true view ISMINE_WATCH_ONLY filter watch on = on at value agree
      generalize Wallet.cachedPart false view ISMINE_WATCH_ONLY filter watch off = off at value agree
      obtain ⟨onValue, on⟩ := on
      obtain ⟨offValue, off⟩ := off
      cases value
      cases onValue with
      | error thrown => exact ⟨rfl, agree⟩
      | ok nSecond => exact ⟨rfl, agree⟩

theorem Agree.ripeCredit (agree : Agree view wtx wtx') (kind : CacheKind)
    (asked : Asked view wtx.tx kind) :
    Matches view (wtx.ripeCredit true view kind) (wtx'.ripeCredit false view kind) := by
  rw [CWalletTx.ripeCredit, CWalletTx.ripeCredit, ← agree.pwallet, ← agree.tx]
  split
  · exact ⟨rfl, agree⟩
  · split
    · exact ⟨rfl, agree⟩
    · exact agree.cachedValue kind asked

theorem Getter.read_agree (getter : Getter) (agree : Agree view wtx wtx') :
    Matches view (getter.read true view wtx) (getter.read false view wtx') := by
  cases getter with
  | getDebit filter =>
      show Matches view (wtx.getDebit true view filter) (wtx'.getDebit false view filter)
      rw [CWalletTx.getDebit, CWalletTx.getDebit, ← agree.tx]
      split
      · exact ⟨rfl, agree⟩
      · exact agree.cachedSum filter .debit .watchDebit (fun _ => nofun) (fun _ => nofun)
  | getCredit filter =>
      show Matches view (wtx.getCredit true view filter) (wtx'.getCredit false view filter)
      rw [CWalletTx.getCredit, CWalletTx.getCredit, ← agree.tx]
      split
      · exact ⟨rfl, agree⟩
      · exact agree.cachedSum filter .credit .watchCredit (fun _ => nofun) (fun _ => nofun)
  | getImmatureCredit =>
      show Matches view (wtx.getImmatureCredit true view) (wtx'.getImmatureCredit false view)
      rw [CWalletTx.getImmatureCredit, CWalletTx.getImmatureCredit, ← agree.tx]
      split
      next immature => exact agree.cachedValue .immatureCredit fun _ => immature
      next => exact ⟨rfl, agree⟩
  | getAvailableCredit => exact agree.ripeCredit .availableCredit nofun
  | getAnonymizableCredit => exact agree.ripeCredit .anonymizableCredit nofun
  | getAnonymizedCredit => exact agree.ripeCredit .anonymizedCredit nofun
  | getImmatureWatchOnlyCredit =>
      show Matches view (wtx.getImmatureWatchOnlyCredit true view)
        (wtx'.getImmatureWatchOnlyCredit false view)
      rw [CWalletTx.getImmatureWatchOnlyCredit, CWalletTx.getImmatureWatchOnlyCredit, ← agree.tx]
      split
      · exact agree.cachedValue .immatureWatchCredit nofun
      · exact ⟨rfl, agree⟩
  | getAvailableWatchOnlyCredit => exact agree.ripeCredit .availableWatchCredit nofun
  | getChange => exact agree.cachedValue .change nofun

theorem Getter.reads_coherent (getters : List Getter) (agree : Agree view wtx wtx) :
    Agree view (reads true view getters wtx) (reads true view getters wtx) := by
  induction getters generalizing wtx with
  | nil => exact agree
  | cons getter rest ih =>
      have next := (getter.read_agree agree).2
      exact ih ⟨rfl, rfl, next.coherent⟩

end coherence

section dirty

variable [TxHasher] [ScriptCrypto] (view : CreditView) (wtx : CWalletTx)

theorem markDirty_coherent_iff :
    Agree view wtx.markDirty wtx.markDirty ↔
      ((wtx.caches .immatureCredit).valid = false ∨ isImmature view wtx.tx = false ∨
        walletCredit view wtx.tx ISMINE_SPENDABLE = .ok (wtx.caches .immatureCredit).value) := by
  have others (kind : CacheKind) (kept : kind ∉ CWalletTx.dirtied) : kind = .immatureCredit := by
    cases kind <;> first | rfl | exact absurd (by decide) kept
  have coherent : Agree view wtx.markDirty wtx.markDirty ↔
      Memo.Coherent (fun kind => Asked view wtx.tx kind ∧ kind ∉ CWalletTx.dirtied)
        (compute view wtx.tx) wtx.caches := by
    rw [← Memo.invalidate_coherent_iff]
    exact ⟨fun agree => agree.coherent, fun coherent => ⟨rfl, rfl, coherent⟩⟩
  rw [coherent]
  constructor
  · intro coherent
    have kept := coherent .immatureCredit
    cases valid : (wtx.caches .immatureCredit).valid with
    | false => exact Or.inl rfl
    | true =>
        cases immature : isImmature view wtx.tx with
        | false => exact Or.inr (Or.inl rfl)
        | true => exact Or.inr (Or.inr (kept ⟨fun _ => immature, by decide⟩ valid))
  · intro holds kind live valid
    have same := others kind live.2
    subst same
    rcases holds with invalid | mature | right
    · rw [invalid] at valid
      cases valid
    · have immature := live.1 rfl
      rw [mature] at immature
      cases immature
    · exact right

/-- After MarkDirty the getters return what they would compute, except that the immature credit is
returned as it was while there is one. -/
theorem markDirty_fresh_iff :
    (∀ (earlier : List Getter) (getter : Getter),
      (getter.read true view (Getter.reads true view earlier wtx.markDirty)).1 =
        (getter.read false view (Getter.reads true view earlier wtx.markDirty)).1) ↔
      ((wtx.caches .immatureCredit).valid = false ∨ isImmature view wtx.tx = false ∨
        walletCredit view wtx.tx ISMINE_SPENDABLE = .ok (wtx.caches .immatureCredit).value) := by
  constructor
  · intro fresh
    have first := fresh [] .getImmatureCredit
    cases valid : (wtx.caches .immatureCredit).valid with
    | false => exact Or.inl rfl
    | true =>
        cases immature : isImmature view wtx.tx with
        | false => exact Or.inr (Or.inl rfl)
        | true =>
            refine Or.inr (Or.inr ?_)
            have kept : wtx.markDirty.caches .immatureCredit = wtx.caches .immatureCredit :=
              Memo.invalidate_other CWalletTx.dirtied wtx.caches .immatureCredit (by decide)
            change (wtx.markDirty.getImmatureCredit true view).1 =
              (wtx.markDirty.getImmatureCredit false view).1 at first
            rw [CWalletTx.getImmatureCredit, CWalletTx.getImmatureCredit] at first
            have still : isImmature view wtx.markDirty.tx = true := immature
            rw [if_pos still, if_pos still, Wallet.cachedValue, Wallet.cachedValue] at first
            dsimp only at first
            rw [Memo.fetch_off, Memo.fetch, kept, valid] at first
            exact first.symm
  · intro holds earlier getter
    have agree := Getter.reads_coherent earlier ((markDirty_coherent_iff view wtx).mpr holds)
    exact (getter.read_agree agree).1

end dirty

section stale

def coinbaseTx : CTransaction := ⟨1, [⟨COutPoint.null, [], 0xffffffff⟩], [⟨5 * COIN, []⟩], 0⟩

def coinbaseView (mine : IsMineType) : CreditView where
  params := CChainParams.mainParams
  prevOut _ := none
  isMine _ := mine
  mapAddressBook := []
  isSpent _ _ := false
  isLockedCoin _ _ := false
  isDenominated _ := false
  getInputObfuscationRounds _ := -2
  nObfuscationRounds := 2
  fMasterNode := false
  getBlocksToMaturity _ := 50
  isInMainChain _ := true

def CWalletTx.init (tx : CTransaction) : CWalletTx := ⟨tx, true, fun _ => ⟨false, 0⟩⟩

/-- The immature credit is asked for, the key is imported, and the balance stays at zero. -/
theorem markDirty_stale :
    letI := zeroHashes
    letI := zeroDigests
    let before := ((CWalletTx.init coinbaseTx).getImmatureCredit true (coinbaseView .no)).2
    let later := coinbaseView .spendable
    (before.markDirty.getImmatureCredit true later).1 ≠
      (before.markDirty.getImmatureCredit false later).1 := by
  decide

end stale

end Wallet

end CryptoYen
