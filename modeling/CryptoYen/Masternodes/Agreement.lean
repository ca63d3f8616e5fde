import CryptoYen.Consensus.Chainstate
import CryptoYen.Masternodes.Winners
import CryptoYen.Staking.Payments

set_option autoImplicit false

namespace CryptoYen

namespace CMasternodeBlockPayees

theorem betterPayment_some (payments : List CMasternodePayee) (best : CMasternodePayee) :
    ∃ chosen, payments.foldl betterPayment (some best) = some chosen ∧
      (chosen = best ∨ chosen ∈ payments) ∧ best.nVotes ≤ chosen.nVotes ∧
      ∀ p ∈ payments, p.nVotes ≤ chosen.nVotes := by
  induction payments generalizing best with
  | nil => exact ⟨best, rfl, .inl rfl, Int.le_refl _, by simp⟩
  | cons p rest ih =>
      by_cases more : best.nVotes < p.nVotes
      · obtain ⟨chosen, found, among, least, most⟩ := ih p
        refine ⟨chosen, by simpa [betterPayment, more] using found, ?_, by omega, ?_⟩
        · exact .inr (by simpa using among)
        · simpa using ⟨least, most⟩
      · obtain ⟨chosen, found, among, least, most⟩ := ih best
        refine ⟨chosen, by simpa [betterPayment, more] using found, ?_, least, ?_⟩
        · cases among with
          | inl same => exact .inl same
          | inr later => exact .inr (List.mem_cons_of_mem _ later)
        · refine List.forall_mem_cons.mpr ⟨by omega, most⟩

theorem bestPayment_some (payees : CMasternodeBlockPayees) (p : CMasternodePayee)
    (member : p ∈ payees.vecPayments) :
    ∃ chosen, payees.bestPayment p.mnlevel = some chosen ∧ chosen ∈ payees.vecPayments ∧
      chosen.mnlevel = p.mnlevel ∧ p.nVotes ≤ chosen.nVotes := by
  have among : p ∈ payees.vecPayments.filter fun q => q.mnlevel == p.mnlevel := by
    simp [member]
  have ofLevel : ∀ q ∈ payees.vecPayments.filter fun q => q.mnlevel == p.mnlevel,
      q ∈ payees.vecPayments ∧ q.mnlevel = p.mnlevel := by
    simp
  unfold bestPayment
  cases levels : payees.vecPayments.filter fun q => q.mnlevel == p.mnlevel with
  | nil =>
      rw [levels] at among
      cases among
  | cons first rest =>
      rw [levels] at among ofLevel
      obtain ⟨chosen, found, source, least, most⟩ := betterPayment_some rest first
      have taken : chosen ∈ first :: rest := by simpa using source
      refine ⟨chosen, found, (ofLevel chosen taken).1, (ofLevel chosen taken).2, ?_⟩
      cases among with
      | head => exact least
      | tail _ later => exact most p later

end CMasternodeBlockPayees

theorem getBlockValue_succ_le (params : CChainParams) (chainActive : CChain) (nHeight : Int) :
    getBlockValue params chainActive (nHeight + 1) ≤ getBlockValue params chainActive nHeight := by
  have subsidy : (if nHeight + 1 < 1 then 1000000 * COIN else 20000000) ≤
      if nHeight < 1 then 1000000 * COIN else 20000000 := by
    simp only [COIN]
    split <;> split <;> omega
  simp only [getBlockValue]
  split
  next => exact Int.le_refl _
  next => split <;> split <;> omega

theorem getMasternodePayment_succ_le (params : CChainParams) (chainActive : CChain)
    (nHeight : Int) (mnlevel : Nat) (block_value block_value' : Int) :
    getMasternodePayment params chainActive (nHeight + 1) mnlevel block_value ≤
      getMasternodePayment params chainActive nHeight mnlevel block_value' := by
  have share := (masternodeShare_bound mnlevel).1
  have later := getBlockValue_nonneg params chainActive (nHeight + 1)
  have now := getBlockValue_nonneg params chainActive nHeight
  rw [getMasternodePayment, getMasternodePayment,
    Int.tdiv_eq_ediv_of_nonneg (Int.mul_nonneg later share),
    Int.tdiv_eq_ediv_of_nonneg (Int.mul_nonneg now share)]
  exact Int.ediv_le_ediv (by decide)
    (Int.mul_le_mul_of_nonneg_right (getBlockValue_succ_le params chainActive nHeight) share)

theorem masternodeLevels_of_payment (params : CChainParams) (chainActive : CChain) (nHeight : Int)
    (mnlevel : Nat) (block_value : Int)
    (pays : getMasternodePayment params chainActive nHeight mnlevel block_value ≠ 0) :
    mnlevel ∈ masternodeLevels := by
  by_contra unknown
  simp only [masternodeLevels, List.mem_cons, List.not_mem_nil, or_false, not_or] at unknown
  refine pays ?_
  unfold getMasternodePayment masternodeShare
  split <;> simp_all

namespace MasternodePayments

theorem mem_paid (payments : MasternodePayments) (params : CChainParams) (chainActive : CChain)
    (active : chainActive ≠ []) (txout : CTxOut) :
    txout ∈ payments.paid params chainActive ↔
      ∃ mnlevel ∈ masternodeLevels, payments.payee chainActive mnlevel = some txout.scriptPubKey ∧
        txout.nValue = getMasternodePayment params chainActive chainActive.height mnlevel 0 ∧
        txout.nValue ≠ 0 := by
  have filled : payments.paid params chainActive =
      masternodeLevels.filterMap (payments.levelOutput params chainActive) := by
    cases chainActive with
    | nil => exact absurd rfl active
    | cons => rfl
  rw [filled, List.mem_filterMap]
  refine exists_congr fun mnlevel => and_congr_right fun _ => ?_
  simp only [levelOutput]
  cases payments.payee chainActive mnlevel with
  | none => simp
  | some payee =>
      obtain ⟨nValue, scriptPubKey⟩ := txout
      by_cases unpaid : getMasternodePayment params chainActive chainActive.height mnlevel 0 = 0
      · simp only [unpaid, ↓reduceIte, reduceCtorEq, false_iff]
        rintro ⟨_, rfl, zero⟩
        exact zero rfl
      · simp only [unpaid, ↓reduceIte, Option.some.injEq, CTxOut.mk.injEq]
        constructor
        · rintro ⟨rfl, rfl⟩
          exact ⟨rfl, rfl, unpaid⟩
        · rintro ⟨rfl, rfl, _⟩
          exact ⟨rfl, rfl⟩

end MasternodePayments

namespace CMasternodePayments

def Keyed (payments : CMasternodePayments) : Prop :=
  ∀ nBlockHeight block, payments.mapMasternodeBlocks.lookup nBlockHeight = some block →
    block.nBlockHeight = nBlockHeight

theorem blockPayees_keyed (payments : CMasternodePayments) (keyed : payments.Keyed)
    (nBlockHeight : Int) : (payments.blockPayees nBlockHeight).nBlockHeight = nBlockHeight := by
  unfold blockPayees
  cases present : payments.mapMasternodeBlocks.lookup nBlockHeight with
  | none => rfl
  | some block => exact keyed nBlockHeight block present

theorem cleanWinner_keyed (ctx : PaymentsContext) (nHeight : Int) (payments : CMasternodePayments)
    (item : WinnerItem) (keyed : payments.Keyed) : (cleanWinner ctx nHeight payments item).Keyed := by
  simp only [cleanWinner]
  split
  next =>
    intro nBlockHeight block present
    rw [Assoc.lookup_erase] at present
    split at present
    next => cases present
    next => exact keyed nBlockHeight block present
  next => exact keyed

theorem storeWinner_keyed [WinnerHasher] (payments : CMasternodePayments)
    (winner : CMasternodePaymentWinner) (keyed : payments.Keyed) :
    (payments.storeWinner winner).Keyed := by
  intro nBlockHeight block present
  simp only [storeWinner, Assoc.lookup_insert] at present
  split at present
  next same =>
    cases present
    exact (payments.blockPayees_keyed keyed winner.nBlockHeight).trans same.symm
  next => exact keyed nBlockHeight block present

theorem run_keyed [WinnerHasher] (ops : List PaymentsOp) (final : CMasternodePayments)
    (ran : Machine.run step empty ops = some final) : final.Keyed :=
  run_preserves Keyed (fun _ _ present => by cases present) storeWinner_keyed cleanWinner_keyed
    ops final ran

def producer (payments : CMasternodePayments) (getCurrentMasterNode : Nat → Option CScript) :
    MasternodePayments :=
  ⟨payments.getBlockPayee, getCurrentMasterNode⟩

/-- A payee is paid although its own level gets nothing: by an output that was there before, or as
the payee of a level that does get a payment. -/
def PaidAnyway (payments : MasternodePayments) (params : CChainParams) (chainActive : CChain)
    (vout : List CTxOut) (payee : CMasternodePayee) : Prop :=
  (∃ out ∈ vout, out.scriptPubKey = payee.scriptPubKey ∧ 0 ≤ out.nValue) ∨
    ∃ mnlevel ∈ masternodeLevels, payments.payee chainActive mnlevel = some payee.scriptPubKey ∧
      getMasternodePayment params chainActive chainActive.height mnlevel 0 ≠ 0

-- Each level with enough votes for a payee gets a payment, or such a payee is paid anyway.
def PaysVotedLevels (payments : CMasternodePayments) (getCurrentMasterNode : Nat → Option CScript)
    (params : CChainParams) (chainActive : CChain) (vout : List CTxOut) : Prop :=
  ∀ voted ∈ (payments.blockPayees (chainActive.height + 1)).vecPayments, voted.voted = true →
    getMasternodePayment params chainActive chainActive.height voted.mnlevel 0 ≠ 0 ∨
      ∃ payee ∈ (payments.blockPayees (chainActive.height + 1)).vecPayments, payee.voted = true ∧
        payee.mnlevel = voted.mnlevel ∧
        PaidAnyway (payments.producer getCurrentMasterNode) params chainActive vout payee

theorem isTransactionValid_blockPayees (payments : CMasternodePayments) (params : CChainParams)
    (chainActive : CChain) (txNew : CTransaction) (nBlockHeight : Int) :
    payments.isTransactionValid params chainActive txNew nBlockHeight =
      (payments.blockPayees nBlockHeight).isTransactionValid params chainActive txNew := by
  unfold isTransactionValid blockPayees
  cases payments.mapMasternodeBlocks.lookup nBlockHeight with
  | none => rfl
  | some block => rfl

theorem producer_payee (payments : CMasternodePayments)
    (getCurrentMasterNode : Nat → Option CScript) (chainActive : CChain) (voted : CMasternodePayee)
    (member : voted ∈ (payments.blockPayees (chainActive.height + 1)).vecPayments)
    (enough : voted.voted = true) :
    ∃ payee ∈ (payments.blockPayees (chainActive.height + 1)).vecPayments, payee.voted = true ∧
      payee.mnlevel = voted.mnlevel ∧
      (payments.producer getCurrentMasterNode).payee chainActive voted.mnlevel =
        some payee.scriptPubKey := by
  obtain ⟨chosen, best, among, level, votes⟩ :=
    (payments.blockPayees (chainActive.height + 1)).bestPayment_some voted member
  refine ⟨chosen, among, ?_, level, ?_⟩
  · simp only [CMasternodePayee.voted, decide_eq_true_eq] at enough ⊢
    omega
  · unfold blockPayees at member best
    cases present : payments.mapMasternodeBlocks.lookup (chainActive.height + 1) with
    | none =>
        rw [present] at member
        cases member
    | some block =>
        rw [present, Option.getD_some] at best
        simp [MasternodePayments.payee, producer, getBlockPayee, present,
          CMasternodeBlockPayees.getPayee, best]

theorem fillBlockPayee_valid_iff (payments : CMasternodePayments)
    (getCurrentMasterNode : Nat → Option CScript) (params : CChainParams) (chainActive : CChain)
    (txNew : CTransaction) (block_value : Int) (active : chainActive ≠ []) (keyed : payments.Keyed) :
    payments.isTransactionValid params chainActive
        { txNew with
          vout := ((payments.producer getCurrentMasterNode).fillBlockPayee params chainActive
            txNew.vout block_value).1 }
        (chainActive.height + 1) = true ↔
      payments.PaysVotedLevels getCurrentMasterNode params chainActive txNew.vout := by
  have height := payments.blockPayees_keyed keyed (chainActive.height + 1)
  rw [isTransactionValid_blockPayees, CMasternodeBlockPayees.isTransactionValid_iff, height]
  refine forall₂_congr fun voted member => forall_congr' fun enough => ?_
  simp only [MasternodePayments.fillBlockPayee_eq, List.mem_append]
  have required := getMasternodePayment_succ_le params chainActive chainActive.height voted.mnlevel
    (getBlockValue params chainActive (chainActive.height + 1)) 0
  have nonneg := fun mnlevel =>
    (getMasternodePayment_bound params chainActive chainActive.height mnlevel 0).1
  have nonneg' := (getMasternodePayment_bound params chainActive (chainActive.height + 1)
    voted.mnlevel (getBlockValue params chainActive (chainActive.height + 1))).1
  constructor
  · rintro ⟨payee, among, votes, level, out, there, script, value⟩
    by_cases pays : getMasternodePayment params chainActive chainActive.height voted.mnlevel 0 = 0
    · refine .inr ⟨payee, among, votes, level, ?_⟩
      cases there with
      | inl before => exact .inl ⟨out, before, script.symm, by omega⟩
      | inr filled =>
          obtain ⟨mnlevel, valid, chosen, amount, positive⟩ :=
            (MasternodePayments.mem_paid _ params chainActive active out).mp filled
          exact .inr ⟨mnlevel, valid, by rw [chosen, script], by rwa [← amount]⟩
    · exact .inl pays
  · intro condition
    by_cases pays : getMasternodePayment params chainActive chainActive.height voted.mnlevel 0 = 0
    · obtain ⟨payee, among, votes, level, anyway⟩ := condition.resolve_left (not_not.mpr pays)
      rcases anyway with ⟨out, before, script, value⟩ | ⟨mnlevel, valid, chosen, positive⟩
      · exact ⟨payee, among, votes, level, out, .inl before, script.symm, by omega⟩
      · refine ⟨payee, among, votes, level, ⟨_, payee.scriptPubKey⟩, .inr ?_, rfl,
          (required.trans (Int.le_of_eq pays)).trans (nonneg mnlevel)⟩
        exact (MasternodePayments.mem_paid _ params chainActive active _).mpr
          ⟨mnlevel, valid, chosen, rfl, positive⟩
    · obtain ⟨payee, among, votes, level, chosen⟩ :=
        payments.producer_payee getCurrentMasterNode chainActive voted member enough
      refine ⟨payee, among, votes, level, ⟨_, payee.scriptPubKey⟩, .inr ?_, rfl, required⟩
      exact (MasternodePayments.mem_paid _ params chainActive active _).mpr
        ⟨voted.mnlevel, masternodeLevels_of_payment _ _ _ _ _ pays, chosen, rfl, pays⟩

def checker (payments : CMasternodePayments) (ctx : BlockContext) : BlockContext :=
  { ctx with isTransactionValid := payments.isTransactionValid ctx.params ctx.chainActive }

def fill (payments : CMasternodePayments) (getCurrentMasterNode : Nat → Option CScript)
    (ctx : BlockContext) (txNew : CTransaction) (block_value : Int) : CTransaction :=
  { txNew with
    vout := ((payments.producer getCurrentMasterNode).fillBlockPayee ctx.params ctx.chainActive
      txNew.vout block_value).1 }

/-- The verifier agrees with the producer: an unsynced node always, a synced node exactly when the
levels with enough votes are paid. -/
theorem isBlockPayeeValid_fill_iff (payments : CMasternodePayments)
    (getCurrentMasterNode : Nat → Option CScript) (ctx : BlockContext) (block : CBlock)
    (txNew : CTransaction) (block_value : Int) (active : ctx.chainActive ≠ [])
    (keyed : payments.Keyed)
    (selected : block.vtx[if (ctx.params.nLastPOWBlock : Int) < ctx.chainActive.height + 1
      then 1 else 0]? = some (payments.fill getCurrentMasterNode ctx txNew block_value)) :
    isBlockPayeeValid (payments.checker ctx) block (ctx.chainActive.height + 1) = .ok true ↔
      ctx.fMasternodeSynced = false ∨
        payments.PaysVotedLevels getCurrentMasterNode ctx.params ctx.chainActive txNew.vout := by
  have valid := payments.fillBlockPayee_valid_iff getCurrentMasterNode ctx.params ctx.chainActive txNew
    block_value active keyed
  cases synced : ctx.fMasternodeSynced with
  | false => simp [isBlockPayeeValid, checker, synced]
  | true =>
      simp only [isBlockPayeeValid, checker, synced, Bool.not_true, Bool.false_eq_true, ↓reduceIte,
        selected, Except.bind_ok, assertion_ok, Option.some.injEq, Except.pure_ok, exists_eq_left',
        false_or, reduceCtorEq]
      exact valid

end CMasternodePayments

namespace SupplyCap

open CMasternodePayments

def tip (rest : Int) : CChain :=
  [⟨9, 300, 5, 1613150297, 0x1e0fffff, CChainParams.mainParams.nMaxMoneyOut - rest⟩]

def context (rest : Int) : BlockContext :=
  { downloadingNode CChainParams.mainParams with
    chainActive := tip rest
    fMasternodeSynced := true }

def payments : CMasternodePayments :=
  ⟨∅, (∅ : AList fun _ : Int => CMasternodeBlockPayees).insert 301 ⟨301, [⟨[0x51], 1, 6⟩]⟩⟩

def stake : CTransaction := ⟨1, [⟨⟨1, 0⟩, [], 0xffffffff⟩], [.empty, ⟨COIN, [0x52]⟩], 0⟩

def block (rest : Int) : CBlock where
  nVersion := 5
  hashPrevBlock := 9
  hashMerkleRoot := 0
  nTime := 1613150400
  nBits := 0x1e0fffff
  nNonce := 0
  vtx := [⟨1, [⟨.null, [], 0⟩], [.empty], 0⟩, payments.fill (fun _ => none) (context rest) stake 0]
  vchBlockSig := []

theorem keyed : payments.Keyed := by
  intro nBlockHeight block present
  simp only [payments, Assoc.lookup_insert] at present
  split at present
  next same =>
    cases present
    exact same.symm
  next => cases present

end SupplyCap

open SupplyCap in
theorem supplyCap_rejected :
    isBlockPayeeValid (payments.checker (context 0)) (block 0) 301 = .ok false := by
  decide +kernel

open SupplyCap in
theorem isBlockPayeeValid_fill_iff_coin :
    isBlockPayeeValid (payments.checker (context COIN)) (block COIN) 301 = .ok true :=
  (CMasternodePayments.isBlockPayeeValid_fill_iff payments (fun _ => none) (context COIN)
    (block COIN) SupplyCap.stake 0 (by decide) keyed rfl).mpr (.inr fun voted member _ => .inl (by
      have same : voted = ⟨[0x51], 1, 6⟩ := List.mem_singleton.mp member
      subst same
      decide +kernel))

end CryptoYen
