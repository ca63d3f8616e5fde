import CryptoYen.Consensus.Compact
import CryptoYen.Index.Entry

set_option autoImplicit false

namespace CryptoYen

namespace BaseUint

-- none is the exception of a division by zero.
def getBlockProof (nBits : BitVec 32) : Option Uint256 :=
  let compact := setCompact nBits
  if compact.fNegative || compact.fOverflow || compact.bnTarget == 0 then some 0
  else do
    let quotient ← div (complement compact.bnTarget) (add compact.bnTarget (fromUint64 1))
    some (add quotient (fromUint64 1))

theorem getBlockProof_eq (nBits : BitVec 32) :
    getBlockProof nBits = some (CryptoYen.getBlockProof nBits) := by
  have bound := Compact.target_succ_lt nBits
  have nonzero : (CryptoYen.setCompact nBits).bnTarget + 1 ≠ 0 := by
    rw [ne_eq, ← toNat_eq_zero, toNat_succ _ bound]
    exact Nat.succ_ne_zero _
  simp only [getBlockProof, CryptoYen.getBlockProof, setCompact_eq, complement_eq, add_eq, div_eq,
    one_eq, if_neg nonzero, Option.bind_eq_bind, Option.bind_some]
  split <;> rfl

end BaseUint

-- nBits that AcceptBlock lets pass: neither negative nor too large nor zero.
def ValidTarget (nBits : BitVec 32) : Prop :=
  (setCompact nBits).fNegative = false ∧ (setCompact nBits).fOverflow = false ∧
    (setCompact nBits).bnTarget ≠ 0

instance (nBits : BitVec 32) : Decidable (ValidTarget nBits) :=
  inferInstanceAs (Decidable (_ ∧ _ ∧ _))

theorem getBlockProof_invalid (nBits : BitVec 32) (invalid : ¬ ValidTarget nBits) :
    getBlockProof nBits = 0 := by
  have flags : ((setCompact nBits).fNegative || (setCompact nBits).fOverflow ||
      (setCompact nBits).bnTarget == 0) = true := by
    by_contra valid
    simp only [Bool.not_eq_true, Bool.or_eq_false_iff, beq_eq_false_iff_ne] at valid
    exact invalid ⟨valid.1.1, valid.1.2, valid.2⟩
  simp only [getBlockProof, flags, ↓reduceIte]

-- ~T / (T + 1) + 1 is the quotient of the number that the width has no room for.
theorem getBlockProof_valid (nBits : BitVec 32) (valid : ValidTarget nBits) :
    (getBlockProof nBits).toNat = 2 ^ 256 / ((setCompact nBits).bnTarget.toNat + 1) := by
  obtain ⟨positive, fits, nonzero⟩ := valid
  have bound := Compact.target_succ_lt nBits
  have some_target := mt (BaseUint.toNat_eq_zero _).mp nonzero
  have flags : ((setCompact nBits).fNegative || (setCompact nBits).fOverflow ||
      (setCompact nBits).bnTarget == 0) = false := by
    rw [positive, fits, beq_eq_false_iff_ne.mpr nonzero]
    rfl
  simp only [getBlockProof, flags, Bool.false_eq_true, ↓reduceIte]
  generalize (setCompact nBits).bnTarget = bnTarget at bound some_target ⊢
  have succ := BaseUint.toNat_succ bnTarget bound
  have rest : (~~~bnTarget).toNat = 2 ^ 256 - (bnTarget.toNat + 1) := by
    rw [BitVec.toNat_not]
    omega
  have quotient : 2 ^ 256 / (bnTarget.toNat + 1) =
      (2 ^ 256 - (bnTarget.toNat + 1)) / (bnTarget.toNat + 1) + 1 := by
    conv_lhs => rw [← Nat.sub_add_cancel bound.le]
    rw [Nat.add_div_right _ (Nat.succ_pos _)]
  have small : (2 ^ 256 - (bnTarget.toNat + 1)) / (bnTarget.toNat + 1) + 1 < 2 ^ 256 := by
    rw [← quotient]
    exact Nat.div_lt_self (Nat.two_pow_pos 256) (by omega)
  have floor : (~~~bnTarget / (bnTarget + 1)).toNat =
      (2 ^ 256 - (bnTarget.toNat + 1)) / (bnTarget.toNat + 1) := by
    rw [BitVec.toNat_udiv, succ, rest]
  rw [BaseUint.toNat_succ _ (by rwa [floor]), floor, quotient]

theorem Compact.target_exact (nBits : BitVec 32) (fits : (setCompact nBits).fOverflow = false) :
    (setCompact nBits).bnTarget.toNat = Compact.decoded nBits := by
  have below : ¬ 2 ^ 256 ≤ Compact.decoded nBits := by
    rw [← Compact.overflow_iff, fits]
    exact Bool.false_ne_true
  rw [Compact.target_eq, Nat.mod_eq_of_lt (Nat.not_le.mp below)]

def blockProof (nBits : BitVec 32) : Nat := 2 ^ 256 / (Compact.decoded nBits + 1)

theorem getBlockProof_toNat (nBits : BitVec 32) (valid : ValidTarget nBits) :
    (getBlockProof nBits).toNat = blockProof nBits := by
  rw [getBlockProof_valid nBits valid, blockProof, Compact.target_exact nBits valid.2.1]

theorem blockProof_pos (nBits : BitVec 32) (valid : ValidTarget nBits) : 0 < blockProof nBits := by
  have bound := Compact.target_succ_lt nBits
  rw [Compact.target_exact nBits valid.2.1] at bound
  exact Nat.div_pos bound.le (Nat.succ_pos _)

theorem blockProof_antitone (easy hard : BitVec 32)
    (above : Compact.decoded hard ≤ Compact.decoded easy) : blockProof easy ≤ blockProof hard :=
  Nat.div_le_div_left (by omega) (Nat.succ_pos _)

def Rises {α : Type} (measure : List α → Option Uint256) : List α → Prop
  | pindex :: pprev :: older =>
      (∃ before after, measure (pprev :: older) = some before ∧
        measure (pindex :: pprev :: older) = some after ∧ before < after) ∧
      Rises measure (pprev :: older)
  | _ => True

-- nChainWork as AddToBlockIndex sums it up; the genesis block has no parent.
def CChain.nChainWork : CChain → Option Uint256
  | [] => some 0
  | pindex :: ancestors => do
      let before ← nChainWork ancestors
      let proof ← BaseUint.getBlockProof pindex.nBits
      some (BaseUint.add before proof)

theorem nChainWork_toNat (chain : CChain) (valid : ∀ pindex ∈ chain, ValidTarget pindex.nBits)
    (total : (chain.map fun pindex => blockProof pindex.nBits).sum < 2 ^ 256) :
    ∃ work, chain.nChainWork = some work ∧
      work.toNat = (chain.map fun pindex => blockProof pindex.nBits).sum := by
  induction chain with
  | nil => exact ⟨0, rfl, rfl⟩
  | cons pindex ancestors ih =>
      obtain ⟨own, others⟩ := List.forall_mem_cons.mp valid
      rw [List.map_cons, List.sum_cons] at total
      obtain ⟨before, summed, value⟩ := ih others (by omega)
      refine ⟨before + getBlockProof pindex.nBits, ?_, ?_⟩
      · simp only [CChain.nChainWork, summed, BaseUint.getBlockProof_eq, BaseUint.add_eq,
          Option.bind_eq_bind, Option.bind_some]
      · rw [BitVec.toNat_add, value, getBlockProof_toNat _ own, List.map_cons, List.sum_cons,
          Nat.mod_eq_of_lt (by omega), Nat.add_comm]

theorem nChainWork_rises (chain : CChain) (valid : ∀ pindex ∈ chain, ValidTarget pindex.nBits)
    (total : (chain.map fun pindex => blockProof pindex.nBits).sum < 2 ^ 256) :
    Rises CChain.nChainWork chain := by
  induction chain with
  | nil => trivial
  | cons pindex ancestors ih =>
      obtain ⟨after, last, whole⟩ := nChainWork_toNat (pindex :: ancestors) valid total
      have others := (List.forall_mem_cons.mp valid).2
      have positive := blockProof_pos pindex.nBits (List.forall_mem_cons.mp valid).1
      rw [List.map_cons, List.sum_cons] at total whole
      cases ancestors with
      | nil => trivial
      | cons pprev older =>
          obtain ⟨before, first, part⟩ := nChainWork_toNat (pprev :: older) others (by omega)
          refine ⟨⟨before, after, first, last, ?_⟩, ih others (by omega)⟩
          rw [BitVec.lt_def, part, whole]
          omega

/-- GetBlockProof never divides by zero and never wraps. -/
theorem getBlockProof_exact :
    (∀ nBits, ¬ ValidTarget nBits → BaseUint.getBlockProof nBits = some 0) ∧
      (∀ nBits, ValidTarget nBits → ∃ proof, BaseUint.getBlockProof nBits = some proof ∧
        proof.toNat = 2 ^ 256 / (Compact.decoded nBits + 1) ∧ 1 ≤ proof.toNat) ∧
      (∀ easy hard proof more, ValidTarget easy → ValidTarget hard →
        Compact.decoded hard ≤ Compact.decoded easy → BaseUint.getBlockProof easy = some proof →
        BaseUint.getBlockProof hard = some more → proof ≤ more) ∧
      ∀ chain : CChain, (∀ pindex ∈ chain, ValidTarget pindex.nBits) →
        (chain.map fun pindex => 2 ^ 256 / (Compact.decoded pindex.nBits + 1)).sum < 2 ^ 256 →
        Rises CChain.nChainWork chain := by
  refine ⟨?_, ?_, ?_, nChainWork_rises⟩
  · intro nBits invalid
    rw [BaseUint.getBlockProof_eq, getBlockProof_invalid nBits invalid]
  · intro nBits valid
    refine ⟨getBlockProof nBits, BaseUint.getBlockProof_eq nBits, getBlockProof_toNat nBits valid, ?_⟩
    rw [getBlockProof_toNat nBits valid]
    exact blockProof_pos nBits valid
  · intro easy hard proof more easyValid hardValid above isProof isMore
    rw [BaseUint.getBlockProof_eq, Option.some.injEq] at isProof isMore
    rw [← isProof, ← isMore, BitVec.le_def, getBlockProof_toNat easy easyValid,
      getBlockProof_toNat hard hardValid]
    exact blockProof_antitone easy hard above

end CryptoYen
