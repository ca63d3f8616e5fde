import CryptoYen.Library.Draws
import CryptoYen.Staking.ModifierAgreement

set_option autoImplicit false

namespace CryptoYen

open Draws

namespace StakeChain

variable (chain : StakeChain) (nSelectionIntervalStart : Int)

def candidates : List StakeIndex :=
  chain.takeWhile fun pindex => nSelectionIntervalStart ≤ pindex.getBlockTime

end StakeChain

def StakeIndex.item (pindex : StakeIndex) : Candidate := (pindex.getBlockTime, pindex.phashBlock)

def StakeIndex.blockTime (pindex : StakeIndex) : Int := pindex.getBlockTime

def StakeIndex.before (a b : StakeIndex) : Prop := candidateLe a.item b.item = true

instance : DecidableRel StakeIndex.before := fun _ _ => inferInstanceAs (Decidable (_ = true))

theorem candidateLe_iff (a b : Candidate) :
    candidateLe a b = true ↔ a.1 < b.1 ∨ a.1 = b.1 ∧ a.2 ≤ b.2 := by
  simp [candidateLe]

theorem StakeIndex.before_time (a b : StakeIndex) (ordered : a.before b) :
    a.blockTime ≤ b.blockTime := by
  rcases (candidateLe_iff _ _).mp ordered with earlier | same
  · exact Int.le_of_lt earlier
  · exact Int.le_of_eq same.1

theorem StakeIndex.before_trans (a b c : StakeIndex) (first : a.before b) (second : b.before c) :
    a.before c := by
  rw [before, candidateLe_iff] at *
  rcases first with earlier | ⟨same, le⟩
  · rcases second with later | ⟨also, _⟩
    · exact .inl (Int.lt_trans earlier later)
    · exact .inl (also ▸ earlier)
  · rcases second with later | ⟨also, above⟩
    · exact .inl (same ▸ later)
    · exact .inr ⟨same.trans also, BitVec.le_trans le above⟩

theorem StakeIndex.before_total (a b : StakeIndex) : a.before b ∨ b.before a := by
  rw [before, before, candidateLe_iff, candidateLe_iff]
  rcases Int.lt_trichotomy a.item.1 b.item.1 with earlier | same | later
  · exact .inl (.inl earlier)
  · rcases BitVec.le_total a.item.2 b.item.2 with le | above
    · exact .inl (.inr ⟨same, le⟩)
    · exact .inr (.inr ⟨same.symm, above⟩)
  · exact .inr (.inl later)

namespace StakeChain

variable (chain : StakeChain) (nSelectionIntervalStart : Int)

def ordered : List StakeIndex :=
  (chain.candidates nSelectionIntervalStart).reverse.insertionSort StakeIndex.before

theorem sortedByTimestamp_eq :
    chain.sortedByTimestamp nSelectionIntervalStart =
      (chain.ordered nSelectionIntervalStart).map StakeIndex.item := by
  rw [sortedByTimestamp, ordered, candidates, ← List.map_reverse,
    List.map_insertionSort StakeIndex.before (fun a b => candidateLe a b = true) _ _
      fun a _ b _ => Iff.rfl]
  rfl

theorem ordered_perm :
    (chain.ordered nSelectionIntervalStart).Perm (chain.candidates nSelectionIntervalStart) :=
  (List.perm_insertionSort _ _).trans (List.reverse_perm _)

theorem ordered_sorted :
    (chain.ordered nSelectionIntervalStart).Pairwise StakeIndex.before :=
  haveI : Std.Total StakeIndex.before := ⟨StakeIndex.before_total⟩
  haveI : IsTrans StakeIndex StakeIndex.before := ⟨StakeIndex.before_trans⟩
  List.pairwise_insertionSort _ _

end StakeChain

section Rounds

variable [SelectionHasher] (mapBlockIndex : Uint256 → Option StakeIndex) (params : CChainParams)
  (members : List StakeIndex) (nStakeModifierPrev : BitVec 64)

def selectionScore (fModifierV2 : Bool) (pindex : StakeIndex) : Nat :=
  (selectionHash fModifierV2 nStakeModifierPrev pindex).toNat

theorem selectFrom_eq (fModifierV2 : Bool) (mapSelectedBlocks : List Uint256)
    (nSelectionIntervalStop : Int) (best : Option StakeIndex)
    (indexed : ∀ pindex ∈ members, mapBlockIndex pindex.phashBlock = some pindex) :
    selectFrom mapBlockIndex fModifierV2 mapSelectedBlocks nSelectionIntervalStop
        nStakeModifierPrev (members.map StakeIndex.item)
        (best.map fun pindex =>
          (selectionHash fModifierV2 nStakeModifierPrev pindex, pindex)) =
      some ((draw StakeIndex.blockTime (selectionScore nStakeModifierPrev fModifierV2)
        (fun pindex => mapSelectedBlocks.contains pindex.phashBlock) nSelectionIntervalStop members
        best).map fun pindex => (selectionHash fModifierV2 nStakeModifierPrev pindex, pindex)) := by
  induction members generalizing best with
  | nil => rfl
  | cons pindex rest ih =>
      have found : mapBlockIndex pindex.item.2 = some pindex := indexed pindex List.mem_cons_self
      have rest_indexed := fun other member => indexed other (List.mem_cons_of_mem pindex member)
      have better_eq : betterSelection (best.map fun other =>
            (selectionHash fModifierV2 nStakeModifierPrev other, other))
          (selectionHash fModifierV2 nStakeModifierPrev pindex) pindex =
          (better (selectionScore nStakeModifierPrev fModifierV2) best pindex).map fun other =>
            (selectionHash fModifierV2 nStakeModifierPrev other, other) := by
        cases best with
        | none => rfl
        | some held =>
            by_cases lower : selectionScore nStakeModifierPrev fModifierV2 pindex <
                selectionScore nStakeModifierPrev fModifierV2 held
            · have hash_lower : selectionHash fModifierV2 nStakeModifierPrev pindex <
                  selectionHash fModifierV2 nStakeModifierPrev held := lower
              simp only [better, if_pos lower, Option.map_some, betterSelection,
                if_pos hash_lower]
            · have hash_above : ¬ selectionHash fModifierV2 nStakeModifierPrev pindex <
                  selectionHash fModifierV2 nStakeModifierPrev held := lower
              simp only [better, if_neg lower, Option.map_some, betterSelection,
                if_neg hash_above]
      have in_time : StakeIndex.blockTime pindex = pindex.getBlockTime := rfl
      simp only [List.map_cons, selectFrom, draw, found, Option.isSome_map, in_time]
      split
      next => rfl
      next =>
        split
        next => exact ih best rest_indexed
        next =>
          rw [better_eq]
          exact ih _ rest_indexed

def candidateHash (mapBlockIndex : Uint256 → Option StakeIndex) : StakeIndex → Uint256 :=
  selectionHash (usesModifierV2 mapBlockIndex params (members.map StakeIndex.item))
    nStakeModifierPrev

def candidateScore (mapBlockIndex : Uint256 → Option StakeIndex) (pindex : StakeIndex) : Nat :=
  (candidateHash params members nStakeModifierPrev mapBlockIndex pindex).toNat

theorem selectBlockFromCandidates_eq (mapSelectedBlocks : List Uint256)
    (nSelectionIntervalStop : Int)
    (indexed : ∀ pindex ∈ members, mapBlockIndex pindex.phashBlock = some pindex) :
    selectBlockFromCandidates mapBlockIndex params (members.map StakeIndex.item) mapSelectedBlocks
        nSelectionIntervalStop nStakeModifierPrev =
      draw StakeIndex.blockTime (candidateScore params members nStakeModifierPrev mapBlockIndex)
        (fun pindex => mapSelectedBlocks.contains pindex.phashBlock) nSelectionIntervalStop members
        none := by
  have scan := selectFrom_eq mapBlockIndex members nStakeModifierPrev
    (usesModifierV2 mapBlockIndex params (members.map StakeIndex.item)) mapSelectedBlocks
    nSelectionIntervalStop none indexed
  rw [Option.map_none] at scan
  rw [selectBlockFromCandidates, scan, Option.join_some, Option.map_map]
  exact Option.map_id'

def selectionStop (nSelectionIntervalStart : Int) (nRound : Nat) : Int :=
  nSelectionIntervalStart +
    ((List.range (nRound + 1)).map getStakeModifierSelectionIntervalSection).sum

def CBlockIndex.entropyBit (pindex : CBlockIndex) : Bool := pindex.phashBlock.getLsbD 0

omit [SelectionHasher] in
theorem entropyBit_shift (pindex : CBlockIndex) (nRound i : Nat) (inside : i < 64) :
    (pindex.getStakeEntropyBit <<< nRound).getLsbD i =
      (decide (i = nRound) && pindex.entropyBit) := by
  have bit (j : Nat) : pindex.getStakeEntropyBit.getLsbD j = (decide (j = 0) && pindex.entropyBit) := by
    rw [CBlockIndex.getStakeEntropyBit, BitVec.getLsbD_and, BitVec.getLsbD_setWidth,
      CBlockIndex.entropyBit]
    cases j with
    | zero => simp
    | succ j => simp
  rw [BitVec.getLsbD_shiftLeft, bit]
  by_cases same : i = nRound
  · simp [same]
    omega
  · by_cases below : i < nRound
    · simp [same, below]
    · have apart : i - nRound ≠ 0 := by omega
      simp [same, apart]

def EntropyWritten (chosen : List StakeIndex) (nStakeModifierNew : BitVec 64) : Prop :=
  ∀ i < 64, nStakeModifierNew.getLsbD i =
    (chosen[i]?).any fun pindex => pindex.entropyBit

omit [SelectionHasher] in
theorem EntropyWritten.append {chosen : List StakeIndex} {nStakeModifierNew : BitVec 64}
    (written : EntropyWritten chosen nStakeModifierNew) (pindex : StakeIndex) :
    EntropyWritten (chosen ++ [pindex])
      (nStakeModifierNew ||| pindex.getStakeEntropyBit <<< chosen.length) := by
  intro i inside
  rw [BitVec.getLsbD_or, written i inside, entropyBit_shift _ _ _ inside]
  by_cases earlier : i < chosen.length
  · have apart : i ≠ chosen.length := by omega
    simp [List.getElem?_append_left earlier, apart]
  · rw [List.getElem?_eq_none (Nat.not_lt.mp earlier)]
    by_cases last : i = chosen.length
    · simp [last]
    · have beyond : (chosen ++ [pindex])[i]? = none := by
        rw [List.getElem?_eq_none_iff, List.length_append, List.length_singleton]
        omega
      simp [beyond, last]

def Selected (nSelectionIntervalStart : Int) : List StakeIndex → Prop :=
  Sequence StakeIndex.blockTime (candidateScore params members nStakeModifierPrev mapBlockIndex)
    StakeIndex.before members (selectionStop nSelectionIntervalStart)

variable {mapBlockIndex members}

theorem draw_round (indexed : ∀ pindex ∈ members, mapBlockIndex pindex.phashBlock = some pindex)
    (distinct : members.Nodup) (sorted : members.Pairwise StakeIndex.before)
    (nSelectionIntervalStart : Int) (chosen : List StakeIndex)
    (selected : Selected mapBlockIndex params members nStakeModifierPrev nSelectionIntervalStart
      chosen) (short : chosen.length < members.length) :
    ∃ pindex,
      selectBlockFromCandidates mapBlockIndex params (members.map StakeIndex.item)
          (chosen.reverse.map fun other => other.phashBlock)
          (selectionStop nSelectionIntervalStart chosen.length) nStakeModifierPrev = some pindex ∧
        Selected mapBlockIndex params members nStakeModifierPrev nSelectionIntervalStart
          (chosen ++ [pindex]) := by
  -- Hashes tell the candidates apart, so the map of selected hashes is the set of selected blocks.
  have agree : ∀ pindex ∈ members,
      (chosen.reverse.map fun other => other.phashBlock).contains pindex.phashBlock =
        decide (pindex ∈ chosen) := by
    intro pindex member
    rw [Bool.eq_iff_iff, List.contains_iff_mem, List.mem_map, decide_eq_true_iff]
    constructor
    · intro taken
      obtain ⟨other, inside, same⟩ := taken
      have listed := selected.subset (List.mem_reverse.mp inside)
      have found := indexed other listed
      rw [same, indexed pindex member, Option.some.injEq] at found
      rw [found]
      exact List.mem_reverse.mp inside
    · exact fun inside => ⟨pindex, List.mem_reverse.mpr inside, rfl⟩
  obtain ⟨free, member, outside⟩ := exists_free distinct short
  have unmarked := (agree free member).trans (decide_eq_false outside)
  obtain ⟨pindex, drawn, isDrawn⟩ : ∃ pindex,
      draw StakeIndex.blockTime (candidateScore params members nStakeModifierPrev mapBlockIndex)
          (fun other => (chosen.reverse.map fun earlier => earlier.phashBlock).contains
            other.phashBlock)
          (selectionStop nSelectionIntervalStart chosen.length) members none = some pindex ∧ _ :=
    draw_drawn StakeIndex.before StakeIndex.before_time members sorted ⟨free, member, unmarked⟩
  refine ⟨pindex, ?_, selected.append (isDrawn.congr agree)⟩
  rw [selectBlockFromCandidates_eq mapBlockIndex params members nStakeModifierPrev _ _ indexed]
  exact drawn

omit [SelectionHasher] in
theorem selectionStop_succ (nSelectionIntervalStart : Int) (nRound : Nat) :
    selectionStop nSelectionIntervalStart (nRound + 1) =
      selectionStop nSelectionIntervalStart nRound +
        getStakeModifierSelectionIntervalSection (nRound + 1) := by
  rw [selectionStop, selectionStop, List.range_succ (n := nRound + 1), List.map_append,
    List.sum_append]
  simp [Int.add_assoc]

theorem selectRounds_spec
    (indexed : ∀ pindex ∈ members, mapBlockIndex pindex.phashBlock = some pindex)
    (distinct : members.Nodup) (sorted : members.Pairwise StakeIndex.before)
    (nSelectionIntervalStart : Int) (rounds : Nat) (chosen : List StakeIndex)
    (selected : Selected mapBlockIndex params members nStakeModifierPrev nSelectionIntervalStart
      chosen) (stop : Int)
    (stops : stop + getStakeModifierSelectionIntervalSection chosen.length =
      selectionStop nSelectionIntervalStart chosen.length)
    (short : chosen.length + rounds ≤ members.length) (nStakeModifierNew : BitVec 64)
    (written : EntropyWritten chosen nStakeModifierNew) :
    ∃ all result,
      selectRounds mapBlockIndex params (members.map StakeIndex.item) nStakeModifierPrev rounds
          chosen.length stop (chosen.reverse.map fun other => other.phashBlock)
          nStakeModifierNew = some result ∧
        all.length = chosen.length + rounds ∧
        Selected mapBlockIndex params members nStakeModifierPrev nSelectionIntervalStart all ∧
        EntropyWritten all result := by
  induction rounds generalizing chosen stop nStakeModifierNew with
  | zero => exact ⟨chosen, nStakeModifierNew, rfl, rfl, selected, written⟩
  | succ rounds ih =>
      obtain ⟨pindex, found, extended⟩ := draw_round params nStakeModifierPrev indexed distinct
        sorted nSelectionIntervalStart chosen selected (by omega)
      have length : (chosen ++ [pindex]).length = chosen.length + 1 := by
        rw [List.length_append, List.length_singleton]
      have next_stop : selectionStop nSelectionIntervalStart chosen.length +
          getStakeModifierSelectionIntervalSection (chosen ++ [pindex]).length =
          selectionStop nSelectionIntervalStart (chosen ++ [pindex]).length := by
        rw [length, selectionStop_succ]
      obtain ⟨all, result, rest, total, all_selected, all_written⟩ :=
        ih (chosen ++ [pindex]) extended _ next_stop (by omega) _ (written.append pindex)
      rw [length, List.reverse_append, List.reverse_singleton, List.singleton_append,
        List.map_cons] at rest
      refine ⟨all, result, ?_, by omega, all_selected, all_written⟩
      simp only [selectRounds, stops, found, rest]

end Rounds

section Process

variable [SelectionHasher] (process : ModifierProcess) (params : CChainParams)

omit [SelectionHasher] in
theorem ModifierProcess.mapBlockIndex_member (chain : StakeChain)
    (distinct : (chain.map fun pindex => pindex.phashBlock).Nodup) (pindex : StakeIndex)
    (member : pindex ∈ chain) : process.mapBlockIndex chain pindex.phashBlock = some pindex := by
  rw [process.mapBlockIndex_chain chain _ ⟨pindex, member, rfl⟩]
  cases found : chain.find? fun other => other.phashBlock == pindex.phashBlock with
  | none =>
      have missed := List.find?_eq_none.mp found pindex member
      simp at missed
  | some other =>
      have same : other.phashBlock = pindex.phashBlock := by
        simpa using List.find?_some found
      rw [List.inj_on_of_nodup_map distinct (List.mem_of_find?_eq_some found) member same]

/-- One round: the block with the least selection hash among the unchosen candidates up to the
stop time, or the earliest of them when none is that early. -/
structure SelectionRound (candidates chosen : List StakeIndex) (hash : StakeIndex → Uint256)
    (nSelectionIntervalStop : Int) (pindex : StakeIndex) : Prop where
  candidate : pindex ∈ candidates
  unchosen : pindex ∉ chosen
  least : ∀ other ∈ candidates, other ∉ chosen → other.getBlockTime ≤ nSelectionIntervalStop →
    pindex.getBlockTime ≤ nSelectionIntervalStop ∧ hash pindex ≤ hash other
  earliest : (∀ other ∈ candidates, other ∉ chosen → nSelectionIntervalStop < other.getBlockTime) →
    ∀ other ∈ candidates, other ∉ chosen → pindex.getBlockTime ≤ other.getBlockTime

structure ModifierSelection (candidates : List StakeIndex) (hash : StakeIndex → Uint256)
    (nSelectionIntervalStart : Int) (chosen : List StakeIndex) (nStakeModifierNew : BitVec 64) :
    Prop where
  rounds : chosen.length = min 64 candidates.length
  distinct : chosen.Nodup
  round : ∀ i pindex, chosen[i]? = some pindex →
    SelectionRound candidates (chosen.take i) hash (selectionStop nSelectionIntervalStart i) pindex
  bits : EntropyWritten chosen nStakeModifierNew

def roundHash (chain : StakeChain) (nSelectionIntervalStart : Int)
    (nStakeModifierPrev : BitVec 64) : StakeIndex → Uint256 :=
  selectionHash (usesModifierV2 (process.mapBlockIndex chain) params
    (chain.sortedByTimestamp nSelectionIntervalStart)) nStakeModifierPrev

theorem computeNewModifier_selects (chain : StakeChain)
    (distinct : (chain.map fun pindex => pindex.phashBlock).Nodup) (pindexPrev : StakeIndex)
    (nStakeModifier : BitVec 64) :
    ∃ chosen nStakeModifierNew,
      computeNewModifier process params chain pindexPrev nStakeModifier = some nStakeModifierNew ∧
        ModifierSelection (chain.candidates (StakeChain.selectionIntervalStart pindexPrev))
          (roundHash process params chain (StakeChain.selectionIntervalStart pindexPrev)
            nStakeModifier) (StakeChain.selectionIntervalStart pindexPrev) chosen
          nStakeModifierNew := by
  generalize start_eq : StakeChain.selectionIntervalStart pindexPrev = start
  have perm := chain.ordered_perm start
  have inChain (pindex : StakeIndex) (member : pindex ∈ chain.candidates start) : pindex ∈ chain :=
    (List.takeWhile_sublist _).mem member
  have indexed (pindex : StakeIndex) (member : pindex ∈ chain.ordered start) :
      process.mapBlockIndex chain pindex.phashBlock = some pindex :=
    process.mapBlockIndex_member chain distinct pindex (inChain pindex (perm.mem_iff.mp member))
  have apart : (chain.ordered start).Nodup :=
    perm.nodup_iff.mpr ((List.takeWhile_sublist _).nodup (List.Nodup.of_map _ distinct))
  obtain ⟨chosen, result, selects, length, selected, written⟩ :=
    selectRounds_spec params nStakeModifier indexed apart (chain.ordered_sorted start) start
      (min 64 (chain.ordered start).length) [] (fun i pindex found => by simp at found) start
      (by simp [selectionStop]) (by simp) 0 (fun i _ => by simp)
  refine ⟨chosen, result, ?_, ?_, selected.nodup, ?_, written⟩
  · rw [computeNewModifier]
    simp only [start_eq, chain.sortedByTimestamp_eq, List.length_map]
    exact selects
  · rw [length, List.length_nil, Nat.zero_add, perm.length_eq]
  · intro i pindex found
    have drawn := selected i pindex found
    have hash_eq : roundHash process params chain start nStakeModifier =
        candidateHash params (chain.ordered start) nStakeModifier
          (process.mapBlockIndex chain) := by
      rw [roundHash, chain.sortedByTimestamp_eq, candidateHash]
    rw [hash_eq]
    constructor
    · exact perm.mem_iff.mp drawn.member
    · exact of_decide_eq_false drawn.free
    · intro other member unchosen early
      exact drawn.best other (perm.mem_iff.mpr member) (decide_eq_false unchosen) early
    · intro late other member unchosen
      have beyond (q : StakeIndex) (inside : q ∈ chain.ordered start)
          (free : decide (q ∈ chosen.take i) = false) :
          selectionStop start i < q.blockTime :=
        late q (perm.mem_iff.mp inside) (of_decide_eq_false free)
      rcases drawn.first beyond other (perm.mem_iff.mpr member) (decide_eq_false unchosen) with
        rfl | ahead
      · exact Int.le_refl _
      · exact StakeIndex.before_time _ _ ahead

/-- When a new modifier is due the selection does not fail: it takes its rounds one by one from the
candidates, and each leaves the entropy bit of its block. -/
theorem computeNextStakeModifier_selects (pindexPrev : StakeIndex) (ancestors : StakeChain)
    (distinct : ((pindexPrev :: ancestors).map fun pindex => pindex.phashBlock).Nodup)
    (above : pindexPrev.nHeight ≠ 0) (nStakeModifier : BitVec 64) (nModifierTime : Int)
    (last : StakeChain.getLastStakeModifier (pindexPrev :: ancestors) =
      some (nStakeModifier, nModifierTime))
    (due : nModifierTime / getIntervalVersion < pindexPrev.getBlockTime / getIntervalVersion) :
    ∃ chosen nStakeModifierNew,
      computeNextStakeModifier process params (pindexPrev :: ancestors) =
          (true, nStakeModifierNew, true) ∧
        ModifierSelection
          (StakeChain.candidates (pindexPrev :: ancestors)
            (StakeChain.selectionIntervalStart pindexPrev))
          (roundHash process params (pindexPrev :: ancestors)
            (StakeChain.selectionIntervalStart pindexPrev) nStakeModifier)
          (StakeChain.selectionIntervalStart pindexPrev) chosen nStakeModifierNew := by
  obtain ⟨chosen, result, computed, selection⟩ := computeNewModifier_selects process params
    (pindexPrev :: ancestors) distinct pindexPrev nStakeModifier
  refine ⟨chosen, result, ?_, selection⟩
  simp only [computeNextStakeModifier, if_neg above, last, if_neg (Int.not_le.mpr due), computed]

end Process

def selectionTip : StakeIndex := ⟨{ plainBlock 12 1700000120 with nHeight := 2 }, 5, false⟩

def selectionAncestors : StakeChain :=
  [⟨{ plainBlock 11 1700000060 with nHeight := 1 }, 5, true⟩, ⟨plainBlock 10 1700000000, 0, false⟩]

theorem computeNextStakeModifier_selects_third :
    ∃ chosen nStakeModifierNew,
      @computeNextStakeModifier sumSelectionHasher ⟨5, []⟩ CChainParams.mainParams
          (selectionTip :: selectionAncestors) = (true, nStakeModifierNew, true) ∧
        ModifierSelection
          (StakeChain.candidates (selectionTip :: selectionAncestors)
            (StakeChain.selectionIntervalStart selectionTip))
          (@roundHash sumSelectionHasher ⟨5, []⟩ CChainParams.mainParams
            (selectionTip :: selectionAncestors) (StakeChain.selectionIntervalStart selectionTip) 5)
          (StakeChain.selectionIntervalStart selectionTip) chosen nStakeModifierNew :=
  @computeNextStakeModifier_selects sumSelectionHasher ⟨5, []⟩ CChainParams.mainParams selectionTip
    selectionAncestors (by decide) (by decide) 5 1700000060 (by decide) (by decide)

end CryptoYen
