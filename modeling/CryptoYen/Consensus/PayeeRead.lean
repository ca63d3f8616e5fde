import CryptoYen.Consensus.Chainstate

set_option autoImplicit false

namespace CryptoYen

def Answers {α : Type} (result : Except Failure α) : Prop := result ≠ .error .assertion

namespace Answers

theorem require (condition : Bool) (failure : Failure) (other : failure ≠ .assertion) :
    Answers (CryptoYen.require condition failure) := by
  intro failed
  exact other ((require_error condition failure .assertion).mp failed).2

theorem bind {α β : Type} {first : Except Failure α} {second : α → Except Failure β}
    (head : Answers first) (tail : ∀ mid, Answers (second mid)) : Answers (first >>= second) := by
  intro failed
  rcases (Except.bind_error first second .assertion).mp failed with here | ⟨mid, _, later⟩
  · exact head here
  · exact tail mid later

theorem pure {α : Type} (value : α) : Answers (Pure.pure value : Except Failure α) := by
  intro failed
  cases failed

theorem ok {α : Type} (value : α) : Answers (.ok value : Except Failure α) := by
  intro failed
  cases failed

theorem forM {α : Type} (items : List α) (check : α → Check) (each : ∀ item, Answers (check item)) :
    Answers (ForM.forM items check) := by
  intro failed
  obtain ⟨item, _, here⟩ := forM_error items check .assertion failed
  exact each item here

theorem foldlM {α β : Type} (step : α → β → Except Failure α)
    (each : ∀ acc item, Answers (step acc item)) (items : List β) (start : α) :
    Answers (items.foldlM step start) := by
  induction items generalizing start with
  | nil => exact .pure start
  | cons item rest ih =>
      rw [List.foldlM_cons]
      exact .bind (each start item) fun mid => ih mid

theorem bind_asserts {α β : Type} {first : Except Failure α} (head : Answers first)
    (second : α → Except Failure β) :
    (first >>= second) = .error .assertion ↔
      ∃ mid, first = .ok mid ∧ second mid = .error .assertion :=
  (Except.bind_error first second .assertion).trans (or_iff_right head)

end Answers

theorem checkBlockHeader_answers [BlockHasher] (params : CChainParams) (block : CBlockHeader)
    (fCheckPOW : Bool) :
    Answers ((checkBlockHeader params block fCheckPOW).mapError fun failure =>
      failure.andDoS 100 REJECT_INVALID "bad-header" true) := by
  unfold checkBlockHeader require
  split <;> exact fun failed => by cases failed

theorem checkMerkle_answers [TxHasher] [MerkleHasher] (fCheckMerkleRoot : Bool) (block : CBlock) :
    Answers (checkMerkle fCheckMerkleRoot block) := by
  unfold checkMerkle checkMerkleRoot
  split
  next => exact .bind (.require _ _ (by decide)) fun _ => .require _ _ (by decide)
  next => exact .pure ()

theorem checkCoinBases_answers (block : CBlock) : Answers (checkCoinBases block) :=
  .bind (.require _ _ (by decide)) fun _ => .require _ _ (by decide)

theorem checkCoinStakes_answers (block : CBlock) : Answers (checkCoinStakes block) := by
  unfold checkCoinStakes
  split
  next =>
    exact .bind (.require _ _ (by decide)) fun _ => .bind (.require _ _ (by decide)) fun _ =>
      .require _ _ (by decide)
  next => exact .pure ()

theorem checkDuplicateInputs_answers (vInOutPoints : List COutPoint) (vin : List CTxIn) :
    Answers (checkDuplicateInputs vInOutPoints vin) := by
  induction vin with
  | nil => exact .ok ()
  | cons txin rest ih =>
      unfold checkDuplicateInputs
      split
      next => exact fun failed => by cases failed
      next => exact ih

theorem checkTransaction_answers (params : CChainParams) (tx : CTransaction) :
    Answers (checkTransaction params tx) := by
  refine .bind (.require _ _ (by decide)) fun _ => .bind (.require _ _ (by decide)) fun _ =>
    .bind (.require _ _ (by decide)) fun _ => .bind (.foldlM _ (fun total txout => ?_) _ _) fun _ =>
    .bind (checkDuplicateInputs_answers [] tx.vin) fun _ => ?_
  · exact .bind (.require _ _ (by decide)) fun _ => .bind (.require _ _ (by decide)) fun _ =>
      .bind (.require _ _ (by decide)) fun _ => .bind (.require _ _ (by decide)) fun _ => .pure _
  · split
    next => exact .forM _ _ fun txin => .require _ _ (by decide)
    next => exact .forM _ _ fun txin => .require _ _ (by decide)

def ReadsSecond (ctx : BlockContext) (block : CBlock) : Prop :=
  ctx.fMasternodeSynced = true ∧ ctx.fInitialBlockDownload = false ∧
    (ctx.params.nLastPOWBlock : Int) < payeeHeight ctx block

/-- The block that makes CheckBlock read past its transactions: a lone coinbase, which has the shape
of a proof-of-work block, that gets as far as the payment check of a proof-of-stake height. -/
structure ReadsPast [TxHasher] [BlockHasher] [MerkleHasher] (ctx : BlockContext) (block : CBlock)
    (fCheckMerkleRoot : Bool) : Prop where
  lone : ∃ coinbase, block.vtx = [coinbase] ∧ coinbase.isCoinBase = true
  proofOfWork : checkProofOfWork ctx.params block.getHash block.nBits = true
  time : checkBlockTime ctx block = .ok ()
  merkle : checkMerkle fCheckMerkleRoot block = .ok ()
  size : checkBlockSize block = .ok ()
  second : ReadsSecond ctx block

theorem checkPayee_asserts (ctx : BlockContext) (block : CBlock) (coinbase : CTransaction)
    (rest : List CTransaction) (vtx : block.vtx = coinbase :: rest) :
    checkPayee ctx block = .error .assertion ↔ rest = [] ∧ ReadsSecond ctx block := by
  have required (valid : Bool) :
      require valid (.dos 0 REJECT_INVALID "bad-cb-payee") ≠ .error .assertion :=
    Answers.require valid _ (by decide)
  by_cases skipped : payeeHeight ctx block = 0 ∨ ctx.fInitialBlockDownload = true
  · have passed : checkPayee ctx block = .ok () := by
      simp [checkPayee, skipped, pure, Except.pure]
    rw [passed]
    refine iff_of_false (fun same => by cases same) ?_
    rintro ⟨_, _, downloading, above⟩
    cases skipped with
    | inl zero => omega
    | inr ibd => simp [ibd] at downloading
  · rw [not_or, Bool.not_eq_true] at skipped
    simp only [checkPayee, skipped, Bool.false_eq_true, or_self, ↓reduceIte, Except.bind_error,
      required, and_false, exists_false, or_false, isBlockPayeeValid, ReadsSecond, true_and]
    cases synced : ctx.fMasternodeSynced with
    | false => simp [pure, Except.pure]
    | true =>
        simp only [Bool.not_true, Bool.false_eq_true, ↓reduceIte, Except.bind_error,
          assertion_error, and_true, true_and, vtx, pure, Except.pure, reduceCtorEq, and_false,
          exists_false, or_false]
        by_cases above : (ctx.params.nLastPOWBlock : Int) < payeeHeight ctx block <;> simp [above]

theorem checkBlock_asserts [TxHasher] [BlockHasher] [MerkleHasher] (ctx : BlockContext)
    (block : CBlock) (fCheckPOW fCheckMerkleRoot : Bool) :
    checkBlock ctx block fCheckPOW fCheckMerkleRoot = .error .assertion ↔
      checkBlockHeader ctx.params block.toCBlockHeader block.isProofOfWork = .ok () ∧
        checkBlockTime ctx block = .ok () ∧
        checkMerkle fCheckMerkleRoot block = .ok () ∧
        checkBlockSize block = .ok () ∧ checkCoinBases block = .ok () ∧
        checkCoinStakes block = .ok () ∧
        (∀ tx ∈ block.vtx, checkLockedInputs ctx tx = .ok ()) ∧
        checkPayee ctx block = .error .assertion := by
  have tail : Answers (do
      forM block.vtx (checkTransaction ctx.params)
      checkBlockSigOps block) :=
    .bind (.forM _ _ fun tx => checkTransaction_answers ctx.params tx) fun _ =>
      .require _ _ (by decide)
  have payee : (do
      checkPayee ctx block
      forM block.vtx (checkTransaction ctx.params)
      checkBlockSigOps block) = .error .assertion ↔ checkPayee ctx block = .error .assertion := by
    rw [Except.bind_error]
    refine or_iff_left ?_
    rintro ⟨_, _, later⟩
    exact tail later
  have time : Answers (checkBlockTime ctx block) := .require _ _ (by decide)
  have size : Answers (checkBlockSize block) := .require _ _ (by decide)
  have locked (tx : CTransaction) : Answers (checkLockedInputs ctx tx) := .require _ _ (by decide)
  simp only [checkBlock, (checkBlockHeader_answers ctx.params block.toCBlockHeader _).bind_asserts,
    time.bind_asserts, (checkMerkle_answers fCheckMerkleRoot block).bind_asserts,
    size.bind_asserts, (checkCoinBases_answers block).bind_asserts,
    (checkCoinStakes_answers block).bind_asserts, (Answers.forM block.vtx _ locked).bind_asserts,
    exists_unit, Except.mapError_ok, forM_ok, payee]

theorem checkBlock_answers_iff [TxHasher] [BlockHasher] [MerkleHasher] (ctx : BlockContext)
    (block : CBlock) (fCheckPOW fCheckMerkleRoot : Bool) :
    Answers (checkBlock ctx block fCheckPOW fCheckMerkleRoot) ↔
      ¬ ReadsPast ctx block fCheckMerkleRoot := by
  rw [Answers, ne_eq, not_iff_not, checkBlock_asserts]
  constructor
  · rintro ⟨header, time, merkle, size, coinbases, _, _, payee⟩
    obtain ⟨coinbase, rest, vtx, isCoinBase, _⟩ := (checkCoinBases_ok block).mp coinbases
    obtain ⟨rfl, second⟩ := (checkPayee_asserts ctx block coinbase rest vtx).mp payee
    have proofOfWork : block.isProofOfWork = true := by
      simp [CBlock.isProofOfWork, CBlock.isProofOfStake, vtx]
    rw [proofOfWork] at header
    exact ⟨⟨coinbase, vtx, isCoinBase⟩, (checkBlockHeader_ok _ _).mp header, time, merkle, size,
      second⟩
  · rintro ⟨⟨coinbase, vtx, isCoinBase⟩, header, time, merkle, size, second⟩
    have shape : block.isProofOfStake = false := by
      simp [CBlock.isProofOfStake, vtx]
    refine ⟨?_, time, merkle, size, ?_, ?_, ?_, ?_⟩
    · rw [(block.isProofOfWork_iff).mpr shape]
      exact (checkBlockHeader_ok _ _).mpr header
    · exact (checkCoinBases_ok block).mpr ⟨coinbase, [], vtx, isCoinBase, by simp⟩
    · simp [checkCoinStakes, shape, pure, Except.pure]
    · intro tx member
      rw [vtx, List.mem_singleton] at member
      subst member
      simp [checkLockedInputs, isCoinBase]
    · exact (checkPayee_asserts ctx block coinbase [] vtx).mpr ⟨rfl, second⟩

namespace LoneCoinbase

def context : BlockContext :=
  { downloadingNode CChainParams.mainParams with
    chainActive := [⟨9, 300, 5, 1613150297, 0x1e0fffff, 0⟩]
    fInitialBlockDownload := false
    fMasternodeSynced := true }

def block : CBlock where
  nVersion := 5
  hashPrevBlock := 9
  hashMerkleRoot := 1000
  nTime := 1613150400
  nBits := 0x1e0fffff
  nNonce := 0
  vtx := [⟨1, [⟨COutPoint.null, [0x51, 0x51], 0xffffffff⟩], [⟨1000, [0x51]⟩], 0⟩]
  vchBlockSig := []

end LoneCoinbase

open LoneCoinbase in
theorem loneCoinbase_readsPast :
    block.vtx.length = 1 ∧
      ¬ Answers (@checkBlock outputHasher timeHasher leftHasher context block true true) := by
  have failed : @checkBlock outputHasher timeHasher leftHasher context block true true =
      .error .assertion := by
    decide +kernel
  exact ⟨rfl, fun answers => answers failed⟩

end CryptoYen
