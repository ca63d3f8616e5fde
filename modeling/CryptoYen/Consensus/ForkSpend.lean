import CryptoYen.Consensus.AcceptBlock
import CryptoYen.Consensus.BlockStore

set_option autoImplicit false

namespace CryptoYen

def forkBranch (chainActive : CChain) : CChain → CChain
  | [] => []
  | prev :: ancestors => prev :: ancestors.takeWhile fun pindex => !chainActive.contains pindex

def splitBlock (chainActive : CChain) (pindexPrev : CChain) : Option CBlockIndex :=
  pindexPrev.tail.find? fun pindex => chainActive.contains pindex

section Branch

variable {chainActive : CChain} {parent : CBlockIndex} (prev : CBlockIndex) (older : CChain)

theorem forkBranch_split (active : parent ∈ chainActive) :
    forkBranch chainActive (prev :: parent :: older) = [prev] ∧
      splitBlock chainActive (prev :: parent :: older) = some parent := by
  constructor
  · rw [forkBranch, List.takeWhile_cons_of_neg (by simp [active])]
  · exact List.find?_cons_of_pos (by simp [active])

theorem forkBranch_behind (off : parent ∉ chainActive) :
    forkBranch chainActive (prev :: parent :: older) =
        prev :: forkBranch chainActive (parent :: older) ∧
      splitBlock chainActive (prev :: parent :: older) =
        splitBlock chainActive (parent :: older) := by
  constructor
  · rw [forkBranch, List.takeWhile_cons_of_pos (by simp [off]), forkBranch]
  · exact List.find?_cons_of_neg (by simp [off])

end Branch

section Walk

variable (ctx : AcceptContext) (stakeTx : CTransaction)

def Passes (pindex : CBlockIndex) : Prop :=
  ∃ bl, ctx.readBlockFromDisk pindex = some bl ∧ spendsStakeInput stakeTx bl = false

theorem forkSplit_step (readBlock split : Nat) (prev : CBlockIndex) (ancestors : CChain)
    (below : readBlock ≤ ctx.params.nMaxReorganizationDepth) :
    forkSplit ctx stakeTx readBlock (prev :: ancestors) = .ok split ↔
      readBlock + 1 ≤ ctx.params.nMaxReorganizationDepth ∧ Passes ctx stakeTx prev ∧
        ∃ parent older, ancestors = parent :: older ∧
          if parent ∈ ctx.chainActive then parent.nHeight = split
          else forkSplit ctx stakeTx (readBlock + 1) ancestors = .ok split := by
  conv_lhs => unfold forkSplit
  by_cases limit : readBlock = ctx.params.nMaxReorganizationDepth
  · rw [if_pos limit, Except.throw_ok, false_iff]
    rintro ⟨room, _⟩
    omega
  · rw [if_neg limit]
    have room : readBlock + 1 ≤ ctx.params.nMaxReorganizationDepth := by omega
    unfold Passes
    cases ctx.readBlockFromDisk prev with
    | none => simp
    | some bl =>
        cases spends : spendsStakeInput stakeTx bl with
        | true => simp [spends]
        | false =>
            cases ancestors with
            | nil => simp [spends]
            | cons parent older =>
                by_cases active : parent ∈ ctx.chainActive
                · simp [spends, room, active]
                · simp [spends, room, active]

theorem forkSplit_ok_iff (readBlock split : Nat) (pindexPrev : CChain)
    (below : readBlock ≤ ctx.params.nMaxReorganizationDepth) :
    forkSplit ctx stakeTx readBlock pindexPrev = .ok split ↔
      (splitBlock ctx.chainActive pindexPrev).map CBlockIndex.nHeight = some split ∧
        readBlock + (forkBranch ctx.chainActive pindexPrev).length ≤
          ctx.params.nMaxReorganizationDepth ∧
        ∀ pindex ∈ forkBranch ctx.chainActive pindexPrev, Passes ctx stakeTx pindex := by
  induction pindexPrev generalizing readBlock with
  | nil => simp [forkSplit, splitBlock]
  | cons prev ancestors ih =>
      rw [forkSplit_step ctx stakeTx readBlock split prev ancestors below]
      cases ancestors with
      | nil => simp [splitBlock]
      | cons parent older =>
          simp only [List.cons.injEq, ↓existsAndEq, and_self, true_and]
          by_cases active : parent ∈ ctx.chainActive
          · obtain ⟨branch, first⟩ := forkBranch_split prev older active
            rw [branch, first, if_pos active, Option.map_some, Option.some.injEq,
              List.forall_mem_singleton, List.length_singleton]
            tauto
          · obtain ⟨branch, first⟩ := forkBranch_behind prev older active
            rw [branch, first, if_neg active, List.forall_mem_cons, List.length_cons]
            constructor
            · rintro ⟨room, passes, walked⟩
              obtain ⟨reached, short, others⟩ := (ih (readBlock + 1) room).mp walked
              exact ⟨reached, by omega, passes, others⟩
            · rintro ⟨reached, short, passes, others⟩
              have room : readBlock + 1 ≤ ctx.params.nMaxReorganizationDepth := by omega
              exact ⟨room, passes, (ih (readBlock + 1) room).mpr ⟨reached, by omega, others⟩⟩

end Walk

namespace BlockStore

variable [TxHasher] (store : BlockStore) (ctx : AcceptContext)

structure StoredBy : Prop where
  active : store.IsChain ctx.chainActive
  disk : ∀ pindex bl, ctx.readBlockFromDisk pindex = some bl → bl = store.block pindex
  tip : ∃ view, store.coinsAt ctx.chainActive = some view ∧
    ∀ out, ctx.pcoinsTip.isAvailable out = view.isAvailable out

/-- What a transaction spends is unspent after the blocks of a chain, whose transactions all have
different hashes. -/
structure LeavesUnspent (chain : CChain) (tx : CTransaction) : Prop where
  isChain : store.IsChain chain
  coins : ∃ view, store.coinsAt chain = some view ∧
    ∀ txin ∈ tx.vin, txin.prevout.isNull = false ∧ view.isAvailable txin.prevout = true
  distinct : ((store.transactions chain).map CTransaction.getHash).Nodup

variable {store ctx} {chain : CChain} {tx : CTransaction}

theorem LeavesUnspent.parent_genesis (unspent : store.LeavesUnspent chain tx)
    (inputs : tx.vin ≠ []) : ∃ prev parent older, chain = prev :: parent :: older := by
  obtain ⟨view, reached, available⟩ := unspent.coins
  match chain with
  | [] => cases reached
  | [pindex] =>
      cases reached
      obtain ⟨txin, member⟩ := List.exists_mem_of_ne_nil tx.vin inputs
      cases (available txin member).2
  | prev :: parent :: older => exact ⟨prev, parent, older, rfl⟩

theorem LeavesUnspent.splits (unspent : store.LeavesUnspent chain tx) (inputs : tx.vin ≠ [])
    (active : store.IsChain ctx.chainActive) :
    ∃ split, splitBlock ctx.chainActive chain = some split := by
  obtain ⟨prev, parent, older, rfl⟩ := unspent.parent_genesis inputs
  have genesis : store.genesis ∈ parent :: older := unspent.isChain.2.genesis_mem
  exact Option.isSome_iff_exists.mp
    (List.find?_isSome.mpr ⟨_, genesis, by simp [active.genesis_mem]⟩)

theorem LeavesUnspent.branch_not_genesis (unspent : store.LeavesUnspent chain tx)
    (inputs : tx.vin ≠ []) (active : store.IsChain ctx.chainActive) (pindex : CBlockIndex)
    (member : pindex ∈ forkBranch ctx.chainActive chain) :
    pindex ∈ chain ∧ pindex ≠ store.genesis := by
  obtain ⟨prev, parent, older, rfl⟩ := unspent.parent_genesis inputs
  rcases List.mem_cons.mp member with rfl | behind
  · refine ⟨List.mem_cons_self, ?_⟩
    rintro rfl
    have above := unspent.isChain.1
    rw [store.root] at above
    cases above
  · refine ⟨List.mem_cons_of_mem _ (List.takeWhile_subset _ behind), ?_⟩
    rintro rfl
    have off := List.mem_takeWhile_imp behind
    simp [active.genesis_mem] at off

theorem LeavesUnspent.branch_unspent (unspent : store.LeavesUnspent chain tx)
    (inputs : tx.vin ≠ []) (active : store.IsChain ctx.chainActive) (pindex : CBlockIndex)
    (member : pindex ∈ forkBranch ctx.chainActive chain) :
    spendsStakeInput tx (store.block pindex) = false := by
  obtain ⟨view, reached, available⟩ := unspent.coins
  obtain ⟨inChain, other⟩ := unspent.branch_not_genesis inputs active pindex member
  rw [← Bool.not_eq_true]
  intro spends
  simp only [spendsStakeInput, List.any_eq_true, beq_iff_eq] at spends
  obtain ⟨spender, inBlock, txin, input, stakeIn, staked, same⟩ := spends
  obtain ⟨exists_coin, open_coin⟩ := available stakeIn staked
  have apart := store.coinsAt_unspent chain view unspent.isChain reached unspent.distinct
    stakeIn.prevout exists_coin open_coin pindex inChain other spender inBlock
  exact apart (same ▸ List.mem_map_of_mem input)

theorem LeavesUnspent.passes_iff (unspent : store.LeavesUnspent chain tx) (inputs : tx.vin ≠ [])
    (stored : store.StoredBy ctx) (pindex : CBlockIndex)
    (member : pindex ∈ forkBranch ctx.chainActive chain) :
    Passes ctx tx pindex ↔ (ctx.readBlockFromDisk pindex).isSome = true := by
  unfold Passes
  cases read : ctx.readBlockFromDisk pindex with
  | none => simp
  | some bl =>
      have spends := unspent.branch_unspent inputs stored.active pindex member
      rw [← stored.disk pindex bl read] at spends
      simp [spends]

end BlockStore

section Inputs

variable (ctx : AcceptContext) (txin : CTxIn)

def SpentAbove (height : Nat) : Prop :=
  ∀ coin, ctx.pcoinsTip.coins txin.prevout.hash = some coin →
    coin.val.isAvailable txin.prevout.n = true ∨ height < coin.val.nHeight

theorem checkStakeInput_tip :
    checkStakeInput ctx none txin = .ok () ↔ ctx.pcoinsTip.isAvailable txin.prevout = true := by
  unfold checkStakeInput CCoinsView.isAvailable CCoinsView.record
  cases ctx.pcoinsTip.coins txin.prevout.hash with
  | none =>
      change _ ↔ CCoins.empty.isAvailable txin.prevout.n = true
      simp [CCoins.empty, CCoins.isAvailable]
  | some coin => simp

theorem checkStakeInput_fork (height : Nat) :
    checkStakeInput ctx (some height) txin = .ok () ↔ SpentAbove ctx txin height := by
  unfold checkStakeInput SpentAbove
  cases ctx.pcoinsTip.coins txin.prevout.hash with
  | none => simp
  | some coin => simp

end Inputs

section Check

variable [TxHasher] {store : BlockStore} {ctx : AcceptContext} {block : CBlock} {pindexPrev : CChain}
  {stakeTx : CTransaction}

omit [TxHasher] in
theorem isProofOfStake_inputs (second : block.vtx[1]? = some stakeTx)
    (stakes : block.isProofOfStake = true) : stakeTx.vin ≠ [] := by
  rw [CBlock.isProofOfStake, second] at stakes
  intro none
  simp [CTransaction.isCoinStake, none] at stakes

omit [TxHasher] in
theorem checkStakeCoins_ok (ctx : AcceptContext) (block : CBlock) (pindexPrev : CChain)
    (stakeTx : CTransaction) (second : block.vtx[1]? = some stakeTx)
    (stakes : block.isProofOfStake = true) (behind : pindexPrev ≠ []) :
    checkStakeCoins ctx block pindexPrev = .ok () ↔
      if ctx.chainActive.head? = pindexPrev.head? then
        ∀ txin ∈ stakeTx.vin, ctx.pcoinsTip.isAvailable txin.prevout = true
      else
        ∃ height, forkSplit ctx stakeTx 0 pindexPrev = .ok height ∧
          ∀ txin ∈ stakeTx.vin, SpentAbove ctx txin height := by
  simp only [checkStakeCoins, stakes, ↓reduceIte, second, Except.bind_ok, assertion_ok,
    Option.some.injEq, exists_eq_left', forM_ok, splitHeight, behind, false_or]
  split
  next => simp only [Except.pure_ok, exists_eq_left', checkStakeInput_tip]
  next =>
    cases forkSplit ctx stakeTx 0 pindexPrev with
    | error failure => simp [Except.map]
    | ok height => simp [Except.map, checkStakeInput_fork]

theorem checkStakeCoins_ok_iff (second : block.vtx[1]? = some stakeTx)
    (stakes : block.isProofOfStake = true) (stored : store.StoredBy ctx)
    (unspent : store.LeavesUnspent pindexPrev stakeTx) :
    checkStakeCoins ctx block pindexPrev = .ok () ↔
      ctx.chainActive.head? = pindexPrev.head? ∨
        ∃ split, splitBlock ctx.chainActive pindexPrev = some split ∧
          ((forkBranch ctx.chainActive pindexPrev).length ≤ ctx.params.nMaxReorganizationDepth ∧
            ∀ pindex ∈ forkBranch ctx.chainActive pindexPrev,
              (ctx.readBlockFromDisk pindex).isSome = true) ∧
          ∀ txin ∈ stakeTx.vin, SpentAbove ctx txin split.nHeight := by
  have inputs := isProofOfStake_inputs second stakes
  obtain ⟨prev, parent, older, rfl⟩ := unspent.parent_genesis inputs
  rw [checkStakeCoins_ok ctx block _ stakeTx second stakes (by simp)]
  by_cases tip : ctx.chainActive.head? = (prev :: parent :: older).head?
  · rw [if_pos tip, eq_true tip, true_or, iff_true]
    obtain ⟨view, reached, available⟩ := unspent.coins
    obtain ⟨tipView, tipReached, same⟩ := stored.tip
    rw [stored.active.unique unspent.isChain tip, reached] at tipReached
    cases tipReached
    intro txin member
    rw [same]
    exact (available txin member).2
  · rw [if_neg tip, eq_false tip, false_or]
    obtain ⟨split, first⟩ := unspent.splits inputs stored.active
    have readable := forall₂_congr fun pindex member =>
      unspent.passes_iff inputs stored pindex member
    simp only [forkSplit_ok_iff ctx stakeTx 0 _ _ (Nat.zero_le _), readable, first,
      Option.map_some, Option.some.injEq, Nat.zero_add, exists_eq_left', and_assoc]

/-- Where no stake input was recorded as spent up to the split, a block whose stake inputs are
unspent at its parent is stopped by nothing but the length of its branch and the disk. -/
theorem checkStakeCoins_iff (second : block.vtx[1]? = some stakeTx)
    (stakes : block.isProofOfStake = true) (stored : store.StoredBy ctx)
    (unspent : store.LeavesUnspent pindexPrev stakeTx)
    (above : ∀ split, splitBlock ctx.chainActive pindexPrev = some split →
      ∀ txin ∈ stakeTx.vin, SpentAbove ctx txin split.nHeight) :
    checkStakeCoins ctx block pindexPrev = .ok () ↔
      ctx.chainActive.head? = pindexPrev.head? ∨
        (forkBranch ctx.chainActive pindexPrev).length ≤ ctx.params.nMaxReorganizationDepth ∧
          ∀ pindex ∈ forkBranch ctx.chainActive pindexPrev,
            (ctx.readBlockFromDisk pindex).isSome = true := by
  rw [checkStakeCoins_ok_iff second stakes stored unspent]
  constructor
  · rintro (tip | ⟨split, _, passes, _⟩)
    · exact Or.inl tip
    · exact Or.inr passes
  · rintro (tip | passes)
    · exact Or.inl tip
    · obtain ⟨split, first⟩ := unspent.splits (isProofOfStake_inputs second stakes) stored.active
      exact Or.inr ⟨split, first, passes, above split first⟩

def ForkSpendPasses (store : BlockStore) (ctx : AcceptContext) (block : CBlock)
    (pindexPrev : CChain) : Prop :=
  ∀ stakeTx, block.vtx[1]? = some stakeTx → block.isProofOfStake = true → store.StoredBy ctx →
    store.LeavesUnspent pindexPrev stakeTx → checkStakeCoins ctx block pindexPrev = .ok ()

end Check

namespace LongBranch

def entry (hash : Nat) (nHeight : Nat) : CBlockIndex :=
  ⟨BitVec.ofNat 256 hash, nHeight, 4, 1700000000 + 60 * nHeight, 0x1e0ffff0, 0⟩

def main (nHeight : Nat) : CBlockIndex := entry (1000 + nHeight) nHeight
def side (nHeight : Nat) : CBlockIndex := entry (2000 + nHeight) nHeight

def stakes (n : Nat) (nValue : Int) : CTransaction :=
  ⟨1, [⟨⟨1001, n⟩, [], 0xffffffff⟩], [CTxOut.empty, ⟨nValue, [OP_1]⟩], 0⟩

def coinbase (pindex : CBlockIndex) : CTransaction :=
  ⟨1, [⟨COutPoint.null, [0x51, 0x51], 0xffffffff⟩],
    [⟨pindex.phashBlock.toNat - 400, [OP_1]⟩, ⟨400, [OP_1]⟩], 0⟩

def blockOf (pindex : CBlockIndex) : CBlock where
  nVersion := 4
  hashPrevBlock := 0
  hashMerkleRoot := 0
  nTime := pindex.nTime
  nBits := pindex.nBits
  nNonce := 0
  vtx := if pindex = main 2 then [coinbase pindex, stakes 0 600] else [coinbase pindex]
  vchBlockSig := []

def store : BlockStore where
  genesis := main 0
  pprev pindex :=
    if pindex.nHeight = 0 then none
    else if pindex = side pindex.nHeight ∧ 2 < pindex.nHeight then some (side (pindex.nHeight - 1))
    else some (main (pindex.nHeight - 1))
  block := blockOf
  root := rfl

def chainActive : CChain := [main 2, main 1, main 0]

def branch : Nat → CChain
  | 0 => [main 1, main 0]
  | length + 1 => side (length + 2) :: branch length

def coins (chain : CChain) : CCoinsView :=
  ((@BlockStore.coinsAt store outputHasher) chain).getD (CCoinsView.empty 0)

def ctx : AcceptContext :=
  { downloadingNode CChainParams.mainParams with
    chainActive := chainActive
    getTransaction := fun _ => none
    getKernelStakeModifier := fun _ => none
    readBlockFromDisk := fun pindex => some (blockOf pindex)
    pcoinsTip := coins chainActive
    fFailed := fun _ => false
    fHaveData := fun _ => false
    reconsiders := fun _ => false
    writeBlock := pure () }

def block (n : Nat) : CBlock :=
  { blockOf (side 200) with vtx := [coinbase (side 200), stakes n 500] }

theorem branch_isChain (length : Nat) : store.IsChain (branch length) := by
  induction length with
  | zero => exact ⟨by decide, rfl⟩
  | succ length ih =>
      cases length with
      | zero => exact ⟨by decide, ih⟩
      | succ length => exact ⟨by simp [store, side, entry], ih⟩

theorem coins_reached (chain : CChain)
    (reached : ((@BlockStore.coinsAt store outputHasher) chain).isSome = true) :
    (@BlockStore.coinsAt store outputHasher) chain = some (coins chain) := by
  obtain ⟨view, found⟩ := Option.isSome_iff_exists.mp reached
  rw [coins, found]
  rfl

theorem stored : @BlockStore.StoredBy outputHasher store ctx := by
  refine @BlockStore.StoredBy.mk outputHasher store ctx ?_ ?_ ?_
  · exact ⟨by decide, by decide, rfl⟩
  · intro pindex bl read
    exact (Option.some.inj read).symm
  · exact ⟨coins chainActive, coins_reached chainActive (by decide +kernel), fun _ => rfl⟩

theorem unspent (length n : Nat)
    (reached : ((@BlockStore.coinsAt store outputHasher) (branch length)).isSome = true)
    (available : (coins (branch length)).isAvailable ⟨1001, n⟩ = true)
    (distinct : ((store.transactions (branch length)).map
      (@CTransaction.getHash outputHasher)).Nodup) :
    @BlockStore.LeavesUnspent outputHasher store (branch length) (stakes n 500) := by
  refine @BlockStore.LeavesUnspent.mk outputHasher store _ _ (branch_isChain length) ?_ distinct
  refine ⟨coins (branch length), coins_reached _ reached, ?_⟩
  intro txin member
  rw [List.mem_singleton.mp member]
  exact ⟨by simp [COutPoint.isNull], available⟩

end LongBranch

open LongBranch in
-- The check lets a block on a short branch pass.
theorem checkStakeCoins_short :
    checkStakeCoins ctx (block 1) (branch 1) = .ok () := by
  have shortUnspent := unspent 1 1 (by decide +kernel) (by decide +kernel) (by decide +kernel)
  refine (@checkStakeCoins_iff outputHasher store ctx (block 1) (branch 1) (stakes 1 500) rfl rfl
    stored shortUnspent ?_).mpr (Or.inr ⟨by decide +kernel, ?_⟩)
  · intro split first txin member coin found
    rw [List.mem_singleton.mp member] at found ⊢
    have still : ctx.pcoinsTip.isAvailable ⟨1001, 1⟩ = true := by decide +kernel
    rw [CCoinsView.isAvailable, CCoinsView.record, found] at still
    exact Or.inl still
  · intro pindex _
    rfl

open LongBranch in
-- It stops a branch that is too long, and a coin that the active chain spent above the split.
theorem forkSpend_stopped :
    ¬ @ForkSpendPasses outputHasher store ctx (block 1) (branch 101) ∧
      ¬ @ForkSpendPasses outputHasher store ctx (block 0) (branch 1) := by
  constructor
  · intro passes
    have longUnspent := unspent 101 1 (by decide +kernel) (by decide +kernel) (by decide +kernel)
    have passed := passes (stakes 1 500) rfl rfl stored longUnspent
    revert passed
    decide +kernel
  · intro passes
    have spentUnspent := unspent 1 0 (by decide +kernel) (by decide +kernel) (by decide +kernel)
    have passed := passes (stakes 0 500) rfl rfl stored spentUnspent
    revert passed
    decide +kernel

end CryptoYen
