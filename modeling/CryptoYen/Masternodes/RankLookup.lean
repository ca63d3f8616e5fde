import CryptoYen.Masternodes.OrderFree

set_option autoImplicit false

namespace CryptoYen

namespace ElectionContext

open CMasternodeMan Election

variable (ctx : ElectionContext) (man : CMasternodeMan)

-- Has the protocol and, where that is asked for, is enabled. The age does not count here.
def numbered (minProtocol : Int) (fOnlyActive : Bool) (mn : CMasternode) : Bool :=
  decide (minProtocol ≤ mn.protocolVersion) && (!fOnlyActive || ctx.isEnabled mn)

def numberedScores [ScoreHasher] (nBlockHeight minProtocol : Int) (fOnlyActive : Bool) :
    List ScoredVin :=
  (man.vMasternodes.filter (ctx.numbered minProtocol fOnlyActive)).map fun mn =>
    (ctx.compactScore mn.vin nBlockHeight, mn.vin)

def scanRank (nRank : Int) : Int → List ScoredVin → Option CMasternode
  | _, [] => none
  | rank, s :: rest => if rank + 1 = nRank then man.find s.2 else scanRank nRank (rank + 1) rest

def getMasternodeByRank [ScoreHasher] (sort : List ScoredVin → List ScoredVin) (nRank : Int)
    (nBlockHeight minProtocol : Int) (fOnlyActive : Bool) : Option CMasternode :=
  scanRank man nRank 0 (sort (ctx.numberedScores man nBlockHeight minProtocol fOnlyActive))

theorem scanRank_eq (nRank rank : Int) (entries : List ScoredVin) :
    scanRank man nRank rank entries =
      if rank < nRank then entries[(nRank - rank - 1).toNat]?.bind fun s => man.find s.2
      else none := by
  induction entries generalizing rank with
  | nil => simp [scanRank]
  | cons s rest ih =>
      rw [scanRank, ih]
      by_cases here : rank + 1 = nRank
      · have first : (nRank - rank - 1).toNat = 0 := by omega
        rw [if_pos here, if_pos (by omega), first]
        rfl
      · by_cases ahead : rank < nRank
        · have next : (nRank - rank - 1).toNat = (nRank - (rank + 1) - 1).toNat + 1 := by omega
          rw [if_neg here, if_pos ahead, if_pos (by omega), next, List.getElem?_cons_succ]
        · rw [if_neg here, if_neg ahead, if_neg (by omega)]

theorem ranked_eq (minProtocol : Int) (fOnlyActive : Bool) (mn : CMasternode) :
    ctx.ranked minProtocol fOnlyActive mn =
      (ctx.numbered minProtocol fOnlyActive mn &&
        decide (MN_WINNER_MINIMUM_AGE ≤ ctx.nAdjustedTime - mn.sigTime)) := by
  rw [ranked, numbered, Bool.and_right_comm]

section lookup

variable [ScoreHasher] (nBlockHeight minProtocol : Int) (fOnlyActive : Bool)

def scoreEntry (mn : CMasternode) : ScoredVin := (ctx.compactScore mn.vin nBlockHeight, mn.vin)

theorem getMasternodeByRank_iff (sort : List ScoredVin → List ScoredVin)
    (sorts : SortsDown Prod.fst sort) (nRank : Int) (positive : 1 ≤ nRank) (mn : CMasternode)
    (member : mn ∈ man.vMasternodes) :
    ctx.getMasternodeByRank man sort nRank nBlockHeight minProtocol fOnlyActive = some mn ↔
      (sort (ctx.numberedScores man nBlockHeight minProtocol fOnlyActive))[(nRank - 1).toNat]? =
        some (ctx.scoreEntry nBlockHeight mn) := by
  rw [getMasternodeByRank, scanRank_eq, if_pos (by omega), Int.sub_zero, Option.bind_eq_some_iff]
  constructor
  · intro looked
    obtain ⟨s, at_rank, found⟩ := looked
    have inside := (sorts _).perm.subset (List.mem_of_getElem? at_rank)
    obtain ⟨other, listed, rfl⟩ := List.mem_map.mp inside
    have known := man.find_listed other (List.mem_of_mem_filter listed)
    rw [known, Option.some.injEq] at found
    subst found
    exact at_rank
  · intro at_rank
    exact ⟨_, at_rank, man.find_listed mn member⟩

theorem getMasternodeRank_iff (sort : List ScoredVin → List ScoredVin)
    (sorts : SortsDown Prod.fst sort) (known : ctx.getBlockHash nBlockHeight ≠ none) (nRank : Int)
    (positive : 1 ≤ nRank) (mn : CMasternode) (member : mn ∈ man.vMasternodes) :
    ctx.getMasternodeRank sort man mn.vin nBlockHeight minProtocol fOnlyActive = nRank ↔
      (sort (ctx.masternodeScores man nBlockHeight minProtocol fOnlyActive))[(nRank - 1).toNat]? =
        some (ctx.scoreEntry nBlockHeight mn) := by
  let entries := ctx.masternodeScores man nBlockHeight minProtocol fOnlyActive
  obtain ⟨hash, found⟩ := Option.ne_none_iff_exists'.mp known
  have only : ∀ s ∈ sort entries, (s.2.prevout == mn.vin.prevout) = true →
      s = ctx.scoreEntry nBlockHeight mn := by
    intro s inside named
    obtain ⟨other, listed, rfl⟩ := List.mem_map.mp ((sorts entries).perm.subset inside)
    rw [man.vin_inj other (List.mem_of_mem_filter listed) mn member (beq_iff_eq.mp named)]
    rfl
  have distinct : (sort entries).Nodup :=
    (sorts entries).perm.nodup_iff.mpr (entries_nodup man _ _)
  let named (s : ScoredVin) : Bool := s.2.prevout == mn.vin.prevout
  have here : named (ctx.scoreEntry nBlockHeight mn) = true := beq_self_eq_true mn.vin.prevout
  have rank : ctx.getMasternodeRank sort man mn.vin nBlockHeight minProtocol fOnlyActive =
      ((sort entries).findIdx? named).elim (-1) fun index => (index : Int) + 1 := by
    simp only [getMasternodeRank, found]
    cases (sort entries).findIdx? named <;> rfl
  rw [rank, ← findIdx_iff named _ here (sort entries) distinct only]
  cases (sort entries).findIdx? named with
  | none =>
      simp only [Option.elim_none, reduceCtorEq, iff_false]
      omega
  | some index =>
      simp only [Option.elim_some, Option.some.injEq]
      omega

def Untied : Prop :=
  ∀ mn ∈ man.vMasternodes, ∀ other ∈ man.vMasternodes,
    ctx.compactScore mn.vin nBlockHeight = ctx.compactScore other.vin nBlockHeight → mn = other

instance : Decidable (ctx.Untied man nBlockHeight) :=
  inferInstanceAs (Decidable (∀ mn ∈ man.vMasternodes, ∀ other ∈ man.vMasternodes, _ → mn = other))

theorem arrangement_unique (untied : ctx.Untied man nBlockHeight) (chosen : CMasternode → Bool)
    (first second : List ScoredVin)
    (here : Arranged Prod.fst
      ((man.vMasternodes.filter chosen).map (ctx.scoreEntry nBlockHeight)) first)
    (there : Arranged Prod.fst
      ((man.vMasternodes.filter chosen).map (ctx.scoreEntry nBlockHeight)) second) :
    first = second := by
  refine here.unique there ?_
  intro a a_listed b b_listed tie
  obtain ⟨mn, member, rfl⟩ := List.mem_map.mp a_listed
  obtain ⟨other, listed, rfl⟩ := List.mem_map.mp b_listed
  rw [untied mn (List.mem_of_mem_filter member) other (List.mem_of_mem_filter listed) tie]

theorem lookup_of_numbered (sort : List ScoredVin → List ScoredVin)
    (sorts : SortsDown Prod.fst sort) (mn : CMasternode) (member : mn ∈ man.vMasternodes)
    (isNumbered : ctx.numbered minProtocol fOnlyActive mn = true) :
    ∃ nRank, 1 ≤ nRank ∧
      ctx.getMasternodeByRank man sort nRank nBlockHeight minProtocol fOnlyActive = some mn := by
  have listed : ctx.scoreEntry nBlockHeight mn ∈
      sort (ctx.numberedScores man nBlockHeight minProtocol fOnlyActive) := by
    apply (sorts _).perm.symm.subset
    exact List.mem_map.mpr ⟨mn, List.mem_filter.mpr ⟨member, isNumbered⟩, rfl⟩
  obtain ⟨index, at_index⟩ := List.mem_iff_getElem?.mp listed
  have place : ((index : Int) + 1 - 1).toNat = index := by omega
  have positive : 1 ≤ (index : Int) + 1 := by omega
  refine ⟨index + 1, positive, ?_⟩
  rw [ctx.getMasternodeByRank_iff man nBlockHeight minProtocol fOnlyActive sort sorts _ positive mn
    member, place]
  exact at_index

theorem rank_of_ranked (sort : List ScoredVin → List ScoredVin)
    (sorts : SortsDown Prod.fst sort) (known : ctx.getBlockHash nBlockHeight ≠ none)
    (mn : CMasternode) (member : mn ∈ man.vMasternodes)
    (isRanked : ctx.ranked minProtocol fOnlyActive mn = true) :
    1 ≤ ctx.getMasternodeRank sort man mn.vin nBlockHeight minProtocol fOnlyActive := by
  have listed : ctx.scoreEntry nBlockHeight mn ∈
      sort (ctx.masternodeScores man nBlockHeight minProtocol fOnlyActive) := by
    apply (sorts _).perm.symm.subset
    exact List.mem_map.mpr ⟨mn, List.mem_filter.mpr ⟨member, isRanked⟩, rfl⟩
  obtain ⟨index, at_index⟩ := List.mem_iff_getElem?.mp listed
  have place : ((index : Int) + 1 - 1).toNat = index := by omega
  have positive : 1 ≤ (index : Int) + 1 := by omega
  have rank := ctx.getMasternodeRank_iff man nBlockHeight minProtocol fOnlyActive sort sorts known
    (index + 1) positive mn member
  rw [place] at rank
  rw [rank.mpr at_index]
  exact positive

theorem ranked_of_rank (sort : List ScoredVin → List ScoredVin)
    (sorts : SortsDown Prod.fst sort) (known : ctx.getBlockHash nBlockHeight ≠ none)
    (mn : CMasternode) (member : mn ∈ man.vMasternodes)
    (positive : 1 ≤ ctx.getMasternodeRank sort man mn.vin nBlockHeight minProtocol fOnlyActive) :
    ctx.ranked minProtocol fOnlyActive mn = true := by
  have entered := (ctx.getMasternodeRank_iff man nBlockHeight minProtocol fOnlyActive sort sorts
    known _ positive mn member).mp rfl
  have inside := (sorts _).perm.subset (List.mem_of_getElem? entered)
  obtain ⟨other, passes, same⟩ := List.mem_map.mp inside
  have vins : other.vin = mn.vin := congrArg Prod.snd same
  obtain ⟨listed, isRanked⟩ := List.mem_filter.mp passes
  rwa [man.vin_inj other listed mn member (by rw [vins])] at isRanked

theorem rank_cases (sort : List ScoredVin → List ScoredVin) (vin : CTxIn) :
    ctx.getMasternodeRank sort man vin nBlockHeight minProtocol fOnlyActive = -1 ∨
      1 ≤ ctx.getMasternodeRank sort man vin nBlockHeight minProtocol fOnlyActive := by
  unfold getMasternodeRank
  split
  next => exact .inl rfl
  next =>
    split
    next => exact .inr (by omega)
    next => exact .inl rfl

theorem lookup_nonpositive (sort : List ScoredVin → List ScoredVin) (nRank : Int)
    (nonpositive : nRank < 1) :
    ctx.getMasternodeByRank man sort nRank nBlockHeight minProtocol fOnlyActive = none := by
  rw [getMasternodeByRank, scanRank_eq, if_neg (by omega)]

def Inverse (sortRank sortLookup : List ScoredVin → List ScoredVin) (nRank : Int) : Prop :=
  ∀ mn ∈ man.vMasternodes,
    (ctx.getMasternodeByRank man sortLookup nRank nBlockHeight minProtocol fOnlyActive = some mn ↔
      ctx.getMasternodeRank sortRank man mn.vin nBlockHeight minProtocol fOnlyActive = nRank)

section inverse

variable (sortRank sortLookup : List ScoredVin → List ScoredVin)
  (sortsRank : SortsDown Prod.fst sortRank) (sortsLookup : SortsDown Prod.fst sortLookup)
  (known : ctx.getBlockHash nBlockHeight ≠ none)

include sortsRank sortsLookup known

theorem old_of_inverse
    (inverse : ∀ nRank, 1 ≤ nRank →
      ctx.Inverse man nBlockHeight minProtocol fOnlyActive sortRank sortLookup nRank)
    (mn : CMasternode) (member : mn ∈ man.vMasternodes)
    (isNumbered : ctx.numbered minProtocol fOnlyActive mn = true) :
    MN_WINNER_MINIMUM_AGE ≤ ctx.nAdjustedTime - mn.sigTime := by
  obtain ⟨nRank, positive, found⟩ := ctx.lookup_of_numbered man nBlockHeight minProtocol
    fOnlyActive sortLookup sortsLookup mn member isNumbered
  have rank := (inverse nRank positive mn member).mp found
  have isRanked := ctx.ranked_of_rank man nBlockHeight minProtocol fOnlyActive sortRank sortsRank
    known mn member (rank ▸ positive)
  rw [ranked_eq, Bool.and_eq_true] at isRanked
  exact of_decide_eq_true isRanked.2

theorem inverse_of_old (untied : ctx.Untied man nBlockHeight)
    (old : ∀ mn ∈ man.vMasternodes, ctx.numbered minProtocol fOnlyActive mn = true →
      MN_WINNER_MINIMUM_AGE ≤ ctx.nAdjustedTime - mn.sigTime)
    (nRank : Int) (positive : 1 ≤ nRank) :
    ctx.Inverse man nBlockHeight minProtocol fOnlyActive sortRank sortLookup nRank := by
  intro mn member
  have filters : man.vMasternodes.filter (ctx.ranked minProtocol fOnlyActive) =
      man.vMasternodes.filter (ctx.numbered minProtocol fOnlyActive) := by
    apply List.filter_congr
    intro other listed
    rw [ranked_eq]
    cases isNumbered : ctx.numbered minProtocol fOnlyActive other with
    | false => rfl
    | true => simp [old other listed isNumbered]
  have scores : ctx.masternodeScores man nBlockHeight minProtocol fOnlyActive =
      ctx.numberedScores man nBlockHeight minProtocol fOnlyActive := by
    rw [masternodeScores, filters]
    rfl
  have same : sortLookup (ctx.numberedScores man nBlockHeight minProtocol fOnlyActive) =
      sortRank (ctx.numberedScores man nBlockHeight minProtocol fOnlyActive) :=
    ctx.arrangement_unique man nBlockHeight untied _ _ _ (sortsLookup _) (sortsRank _)
  rw [getMasternodeByRank_iff ctx man nBlockHeight minProtocol fOnlyActive sortLookup sortsLookup
      nRank positive mn member,
    getMasternodeRank_iff ctx man nBlockHeight minProtocol fOnlyActive sortRank sortsRank known
      nRank positive mn member, scores, same]

/-- The lookup is the inverse of the rank exactly when no masternode that it counts is too young to
be ranked; at the answer for no rank as well, exactly when every masternode is ranked. -/
theorem getMasternodeByRank_inverse_iff (untied : ctx.Untied man nBlockHeight) :
    ((∀ nRank, 1 ≤ nRank →
        ctx.Inverse man nBlockHeight minProtocol fOnlyActive sortRank sortLookup nRank) ↔
      ∀ mn ∈ man.vMasternodes, ctx.numbered minProtocol fOnlyActive mn = true →
        MN_WINNER_MINIMUM_AGE ≤ ctx.nAdjustedTime - mn.sigTime) ∧
    ((∀ nRank, ctx.Inverse man nBlockHeight minProtocol fOnlyActive sortRank sortLookup nRank) ↔
      ∀ mn ∈ man.vMasternodes, ctx.ranked minProtocol fOnlyActive mn = true) := by
  have positive_iff := Iff.intro
    (ctx.old_of_inverse man nBlockHeight minProtocol fOnlyActive sortRank sortLookup sortsRank
      sortsLookup known)
    (ctx.inverse_of_old man nBlockHeight minProtocol fOnlyActive sortRank sortLookup sortsRank
      sortsLookup known untied)
  refine ⟨positive_iff, ?_⟩
  constructor
  · intro inverse mn member
    cases ctx.rank_cases man nBlockHeight minProtocol fOnlyActive sortRank mn.vin with
    | inl unranked =>
        have found := (inverse (-1) mn member).mpr unranked
        rw [lookup_nonpositive _ _ _ _ _ _ _ (by omega)] at found
        cases found
    | inr positive =>
        exact ctx.ranked_of_rank man nBlockHeight minProtocol fOnlyActive sortRank sortsRank known
          mn member positive
  · intro all nRank
    by_cases positive : 1 ≤ nRank
    · apply positive_iff.mpr _ nRank positive
      intro mn member _
      have isRanked := all mn member
      rw [ranked_eq, Bool.and_eq_true] at isRanked
      exact of_decide_eq_true isRanked.2
    · intro mn member
      have rank := ctx.rank_of_ranked man nBlockHeight minProtocol fOnlyActive sortRank sortsRank
        known mn member (all mn member)
      rw [lookup_nonpositive _ _ _ _ _ _ _ (by omega)]
      constructor
      · intro found
        cases found
      · omega

end inverse

end lookup

end ElectionContext

namespace Young

abbrev hasher : ScoreHasher := ⟨id, fun _ aux => aux⟩

def ctx : ElectionContext := Tied.ctx

def man (age : Int) : CMasternodeMan :=
  ⟨[Tied.masternode 0, { Tied.masternode 1 with sigTime := ctx.nAdjustedTime - age }], by
    simp only [List.map_cons, List.map_nil]
    decide⟩

end Young

open Young in
theorem getMasternodeByRank_inverse_old :
    @ElectionContext.Inverse ctx (man 8000) hasher 900 70000 true (Election.insertion Prod.fst)
      (Election.insertion Prod.fst) 2 :=
  (@ElectionContext.getMasternodeByRank_inverse_iff ctx (man 8000) hasher 900 70000 true _ _
    (Election.insertion_sortsDown _) (Election.insertion_sortsDown _) (by decide)
    (by decide +kernel)).2.mpr (by decide +kernel) 2

open Young in
theorem getMasternodeByRank_counts_young :
    @ElectionContext.Untied ctx (man 7999) hasher 900 ∧
      @ElectionContext.getMasternodeByRank ctx (man 7999) hasher (Election.insertion Prod.fst) 2 900
        70000 true = some (Tied.masternode 0) ∧
      @ElectionContext.getMasternodeRank ctx hasher (Election.insertion Prod.fst) (man 7999)
        (Tied.vin 0) 900 70000 true = 1 ∧
      ¬ @ElectionContext.Inverse ctx (man 7999) hasher 900 70000 true
        (Election.insertion Prod.fst) (Election.insertion Prod.fst) 2 := by
  refine ⟨by decide +kernel, by decide +kernel, by decide +kernel, ?_⟩
  intro inverse
  have first := inverse (Tied.masternode 0) (by decide +kernel)
  revert first
  decide +kernel

end CryptoYen
