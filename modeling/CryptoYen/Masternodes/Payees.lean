import CryptoYen.Consensus.Supply
import CryptoYen.Library.Assoc

set_option autoImplicit false

namespace CryptoYen

def MNPAYMENTS_SIGNATURES_REQUIRED : Int := 6
def MNPAYMENTS_SIGNATURES_TOTAL : Int := 10

structure CMasternodePayee where
  scriptPubKey : CScript
  mnlevel : Nat
  nVotes : Int
  deriving DecidableEq, Repr

def CMasternodePayee.voted (payee : CMasternodePayee) : Bool :=
  MNPAYMENTS_SIGNATURES_REQUIRED ≤ payee.nVotes

structure CMasternodeBlockPayees where
  nBlockHeight : Int
  vecPayments : List CMasternodePayee
  deriving DecidableEq, Repr

namespace CMasternodeBlockPayees

-- A payee is found by its script alone; the level of the first vote stays.
def addPayment (mnlevel : Nat) (payeeIn : CScript) (nIncrement : Int) :
    List CMasternodePayee → List CMasternodePayee
  | [] => [⟨payeeIn, mnlevel, nIncrement⟩]
  | p :: rest =>
      if p.scriptPubKey = payeeIn then { p with nVotes := p.nVotes + nIncrement } :: rest
      else p :: addPayment mnlevel payeeIn nIncrement rest

def addPayee (payees : CMasternodeBlockPayees) (mnlevel : Nat) (payeeIn : CScript)
    (nIncrement : Int) : CMasternodeBlockPayees :=
  { payees with vecPayments := addPayment mnlevel payeeIn nIncrement payees.vecPayments }

def betterPayment (payment : Option CMasternodePayee) (p : CMasternodePayee) :
    Option CMasternodePayee :=
  match payment with
  | none => some p
  | some best => if best.nVotes < p.nVotes then some p else some best

def bestPayment (payees : CMasternodeBlockPayees) (mnlevel : Nat) : Option CMasternodePayee :=
  (payees.vecPayments.filter fun p => p.mnlevel == mnlevel).foldl betterPayment none

def getPayee (payees : CMasternodeBlockPayees) (mnlevel : Nat) : Option CScript :=
  (payees.bestPayment mnlevel).map CMasternodePayee.scriptPubKey

-- max_signatures: the levels that have a payee with enough signatures.
def noteSignatures (max_signatures : AList fun _ : Nat => Int) (payee : CMasternodePayee) :
    AList fun _ : Nat => Int :=
  if !payee.voted then max_signatures
  else
    match max_signatures.lookup payee.mnlevel with
    | none => max_signatures.insert payee.mnlevel payee.nVotes
    | some nVotes =>
        if nVotes ≤ payee.nVotes then max_signatures.insert payee.mnlevel payee.nVotes
        else max_signatures

def paysPayee (vout : List CTxOut) (payee : CMasternodePayee) (requiredMasternodePayment : Int) :
    Bool :=
  vout.any fun out =>
    payee.scriptPubKey == out.scriptPubKey && decide (requiredMasternodePayment ≤ out.nValue)

-- A level is done with once one of its payees is paid.
def checkPayments (required : Nat → Int) (vout : List CTxOut) :
    List CMasternodePayee → (AList fun _ : Nat => Int) → Bool
  | [], _ => false
  | payee :: rest, max_signatures =>
      if !payee.voted then checkPayments required vout rest max_signatures
      else if paysPayee vout payee (required payee.mnlevel) then
        if (max_signatures.erase payee.mnlevel).keys.isEmpty then true
        else checkPayments required vout rest (max_signatures.erase payee.mnlevel)
      else checkPayments required vout rest max_signatures

def isTransactionValid (params : CChainParams) (chainActive : CChain)
    (payees : CMasternodeBlockPayees) (txNew : CTransaction) : Bool :=
  let max_signatures := payees.vecPayments.foldl noteSignatures ∅
  let nReward := getBlockValue params chainActive payees.nBlockHeight
  max_signatures.keys.isEmpty ||
    checkPayments
      (fun mnlevel => getMasternodePayment params chainActive payees.nBlockHeight mnlevel nReward)
      txNew.vout payees.vecPayments max_signatures

theorem mem_noteSignatures (payments : List CMasternodePayee)
    (max_signatures : AList fun _ : Nat => Int) (mnlevel : Nat) :
    mnlevel ∈ payments.foldl noteSignatures max_signatures ↔
      mnlevel ∈ max_signatures ∨ ∃ payee ∈ payments, payee.voted = true ∧ payee.mnlevel = mnlevel := by
  induction payments generalizing max_signatures with
  | nil => simp
  | cons payee rest ih =>
      have noted : mnlevel ∈ noteSignatures max_signatures payee ↔
          mnlevel ∈ max_signatures ∨ (payee.voted = true ∧ payee.mnlevel = mnlevel) := by
        simp only [noteSignatures]
        cases payee.voted with
        | false => simp
        | true =>
            cases present : max_signatures.lookup payee.mnlevel with
            | none => simp [or_comm, eq_comm]
            | some nVotes =>
                have member : payee.mnlevel ∈ max_signatures := by
                  rw [← AList.lookup_isSome, present]
                  rfl
                simp only [Bool.not_true, Bool.false_eq_true, ↓reduceIte, true_and]
                split
                next =>
                  simp only [AList.mem_insert]
                  constructor
                  · rintro (rfl | before)
                    · exact .inr rfl
                    · exact .inl before
                  · rintro (before | rfl)
                    · exact .inr before
                    · exact .inl rfl
                next =>
                  refine ⟨.inl, ?_⟩
                  rintro (before | rfl)
                  · exact before
                  · exact member
      rw [List.foldl_cons, ih, noted]
      simp [or_assoc]

section payments

variable (required : Nat → Int) (vout : List CTxOut)

def LevelPaid (payments : List CMasternodePayee) (mnlevel : Nat) : Prop :=
  ∃ payee ∈ payments, payee.voted = true ∧ payee.mnlevel = mnlevel ∧
    paysPayee vout payee (required mnlevel) = true

theorem levelPaid_cons (payee : CMasternodePayee) (rest : List CMasternodePayee) (mnlevel : Nat) :
    LevelPaid required vout (payee :: rest) mnlevel ↔
      (payee.voted = true ∧ payee.mnlevel = mnlevel ∧
        paysPayee vout payee (required mnlevel) = true) ∨
      LevelPaid required vout rest mnlevel := by
  simp [LevelPaid]

theorem checkPayments_skip (payee : CMasternodePayee) (rest : List CMasternodePayee)
    (max_signatures : AList fun _ : Nat => Int)
    (skips : ¬ (payee.voted = true ∧ paysPayee vout payee (required payee.mnlevel) = true)) :
    checkPayments required vout (payee :: rest) max_signatures =
      checkPayments required vout rest max_signatures := by
  simp only [checkPayments]
  cases voted : payee.voted with
  | false => simp
  | true =>
      have unpaid : paysPayee vout payee (required payee.mnlevel) = false := by
        simpa [voted] using skips
      simp [unpaid]

theorem levelsPaid_erase (payee : CMasternodePayee) (rest : List CMasternodePayee)
    (max_signatures : AList fun _ : Nat => Int) (voted : payee.voted = true)
    (pays : paysPayee vout payee (required payee.mnlevel) = true) :
    (∀ mnlevel ∈ max_signatures, LevelPaid required vout (payee :: rest) mnlevel) ↔
      ∀ mnlevel ∈ max_signatures.erase payee.mnlevel, LevelPaid required vout rest mnlevel := by
  simp only [levelPaid_cons]
  constructor
  · intro all mnlevel member
    obtain ⟨different, before⟩ := AList.mem_erase.mp member
    rcases all mnlevel before with here | later
    · exact absurd here.2.1.symm different
    · exact later
  · intro all mnlevel member
    by_cases same : mnlevel = payee.mnlevel
    · subst same
      exact Or.inl ⟨voted, rfl, pays⟩
    · exact Or.inr (all mnlevel (AList.mem_erase.mpr ⟨same, member⟩))

theorem checkPayments_iff (payments : List CMasternodePayee)
    (max_signatures : AList fun _ : Nat => Int) (waiting : max_signatures.keys ≠ []) :
    checkPayments required vout payments max_signatures = true ↔
      ∀ mnlevel ∈ max_signatures, LevelPaid required vout payments mnlevel := by
  induction payments generalizing max_signatures with
  | nil =>
      obtain ⟨mnlevel, rest, keys⟩ := List.exists_cons_of_ne_nil waiting
      have member : mnlevel ∈ max_signatures := by
        rw [AList.mem_keys, keys]
        exact List.mem_cons_self
      simp only [checkPayments, LevelPaid, Bool.false_eq_true, List.not_mem_nil, false_and,
        exists_false, imp_false, false_iff, not_forall, not_not]
      exact ⟨mnlevel, member⟩
  | cons payee rest ih =>
      by_cases counts : payee.voted = true ∧ paysPayee vout payee (required payee.mnlevel) = true
      · obtain ⟨voted, pays⟩ := counts
        rw [levelsPaid_erase required vout payee rest max_signatures voted pays]
        simp only [checkPayments, voted, pays, Bool.not_true, Bool.false_eq_true, ↓reduceIte]
        split
        next empty =>
          simp only [List.isEmpty_iff] at empty
          simp [AList.mem_keys, empty]
        next left => exact ih _ (by simpa [List.isEmpty_iff] using left)
      · rw [checkPayments_skip required vout payee rest max_signatures counts,
          ih max_signatures waiting]
        refine forall₂_congr fun mnlevel _ => ?_
        rw [levelPaid_cons, or_iff_right]
        rintro ⟨voted, rfl, pays⟩
        exact absurd ⟨voted, pays⟩ counts

end payments

theorem isTransactionValid_iff (params : CChainParams) (chainActive : CChain)
    (payees : CMasternodeBlockPayees) (txNew : CTransaction) :
    payees.isTransactionValid params chainActive txNew = true ↔
      ∀ voted ∈ payees.vecPayments, voted.voted = true →
        ∃ payee ∈ payees.vecPayments, payee.voted = true ∧ payee.mnlevel = voted.mnlevel ∧
          ∃ out ∈ txNew.vout, payee.scriptPubKey = out.scriptPubKey ∧
            getMasternodePayment params chainActive payees.nBlockHeight voted.mnlevel
              (getBlockValue params chainActive payees.nBlockHeight) ≤ out.nValue := by
  have levels := mem_noteSignatures payees.vecPayments ∅
  simp only [AList.notMem_empty, false_or] at levels
  simp only [isTransactionValid, Bool.or_eq_true, List.isEmpty_iff]
  by_cases unvoted : (payees.vecPayments.foldl noteSignatures ∅).keys = []
  · simp only [unvoted, true_or, true_iff]
    intro payee member voted
    have noted := (levels payee.mnlevel).mpr ⟨payee, member, voted, rfl⟩
    rw [AList.mem_keys, unvoted] at noted
    cases noted
  · simp only [unvoted, false_or, checkPayments_iff _ _ _ _ unvoted, levels, LevelPaid, paysPayee,
      List.any_eq_true, Bool.and_eq_true, beq_iff_eq, decide_eq_true_eq]
    constructor
    · intro all payee member voted
      exact all payee.mnlevel ⟨payee, member, voted, rfl⟩
    · rintro all mnlevel ⟨payee, member, voted, rfl⟩
      exact all payee member voted

theorem isTransactionValid_levels (params : CChainParams) (chainActive : CChain)
    (payees : CMasternodeBlockPayees) (txNew : CTransaction) :
    payees.isTransactionValid params chainActive txNew = true ↔
      (∀ payee ∈ payees.vecPayments, payee.nVotes < MNPAYMENTS_SIGNATURES_REQUIRED) ∨
        ∀ mnlevel, (∃ voted ∈ payees.vecPayments, MNPAYMENTS_SIGNATURES_REQUIRED ≤ voted.nVotes ∧
            voted.mnlevel = mnlevel) →
          ∃ payee ∈ payees.vecPayments, MNPAYMENTS_SIGNATURES_REQUIRED ≤ payee.nVotes ∧
            payee.mnlevel = mnlevel ∧ ∃ out ∈ txNew.vout, payee.scriptPubKey = out.scriptPubKey ∧
              getMasternodePayment params chainActive payees.nBlockHeight mnlevel
                (getBlockValue params chainActive payees.nBlockHeight) ≤ out.nValue := by
  simp only [isTransactionValid_iff, CMasternodePayee.voted, decide_eq_true_eq]
  constructor
  next =>
    intro paid
    refine .inr fun mnlevel ⟨voted, member, enough, level⟩ => ?_
    subst level
    exact paid voted member enough
  next =>
    intro specified voted member enough
    cases specified with
    | inl unvoted => exact absurd (unvoted voted member) (not_lt.mpr enough)
    | inr levels => exact levels voted.mnlevel ⟨voted, member, enough, rfl⟩

end CMasternodeBlockPayees

end CryptoYen
