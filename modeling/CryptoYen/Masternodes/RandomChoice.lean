import Mathlib.Data.Nat.Count
import CryptoYen.Masternodes.OrderFree

set_option autoImplicit false

namespace CryptoYen

-- Conversion to int keeps the low 32 bits.
def asInt (n : Nat) : Int := Int.bmod n (2 ^ 32)

-- How many values GetRand(nMax) can have; for nMax = 0 it is 0.
def drawRange (nMax : Int) : Nat := max 1 (nMax % 2 ^ 64).toNat

-- nCountEnabled - vecToExclude.size(), with the count as an int and the size as a size_t
def countLeft (enabled excluded : Nat) : Nat := ((asInt enabled - excluded) % 2 ^ 64).toNat

def isExcluded (vecToExclude : List CTxIn) (mn : CMasternode) : Bool :=
  vecToExclude.any fun usedVin => mn.vin.prevout == usedVin.prevout

theorem asInt_eq (n : Nat) :
    asInt n =
      if (n : Int) % 2 ^ 32 < 2 ^ 31 then (n : Int) % 2 ^ 32 else (n : Int) % 2 ^ 32 - 2 ^ 32 :=
  rfl

theorem asInt_of_lt (n : Nat) (small : n < 2 ^ 31) : asInt n = n := by
  have same : (n : Int) % 2 ^ 32 = n := by omega
  rw [asInt_eq, same, if_pos (by omega)]

theorem asInt_eq_two (draw : Nat) (two : asInt draw = 2) :
    ∃ earlier, draw = earlier + 1 ∧ asInt earlier = 1 := by
  have low : (draw : Int) % 2 ^ 32 = 2 := by
    rw [asInt_eq] at two
    split at two <;> omega
  have earlier_low : ((draw - 1 : Nat) : Int) % 2 ^ 32 = 1 := by omega
  refine ⟨draw - 1, by omega, ?_⟩
  rw [asInt_eq, earlier_low]
  rfl

theorem count_lt_of_shift (one other : Nat → Prop) [DecidablePred one] [DecidablePred other]
    (range : Nat) (inside : 0 < range) (zero : one 0)
    (shift : ∀ draw, other draw →
      ∃ earlier, draw = earlier + 1 ∧ earlier ≠ 0 ∧ one earlier) :
    Nat.count other range < Nat.count one range := by
  obtain ⟨last, rfl⟩ := Nat.exists_eq_add_of_lt inside
  rw [Nat.zero_add]
  have not_zero : ¬ other 0 := by
    intro here
    obtain ⟨earlier, same, _⟩ := shift 0 here
    cases same
  calc Nat.count other (last + 1)
      = Nat.count (fun draw => other (draw + 1)) last := by
        rw [Nat.count_succ', if_neg not_zero, Nat.add_zero]
    _ ≤ Nat.count (fun draw => draw ≠ 0 ∧ one draw) last := by
        apply Nat.count_mono_left
        intro draw _ later
        obtain ⟨earlier, same, behind⟩ := shift (draw + 1) later
        rw [Nat.succ_inj.mp same]
        exact behind
    _ ≤ Nat.count (fun draw => draw ≠ 0 ∧ one draw) (last + 1) :=
        Nat.count_monotone _ (Nat.le_succ last)
    _ = Nat.count (fun draw => draw + 1 ≠ 0 ∧ one (draw + 1)) last := by
        rw [Nat.count_succ', if_neg (fun both => both.1 rfl), Nat.add_zero]
    _ ≤ Nat.count (fun draw => one (draw + 1)) last := by
        apply Nat.count_mono_left
        exact fun draw _ both => both.2
    _ < Nat.count one (last + 1) := by
        rw [Nat.count_succ', if_pos zero]
        exact Nat.lt_succ_self _

def LeavesOne (enabled excluded : Nat) : Prop :=
  countLeft enabled excluded ≠ 0 ∧ ((enabled : Int) - excluded) % 2 ^ 32 ≤ 2

theorem drawRange_le_two (enabled excluded : Nat) :
    drawRange (asInt (countLeft enabled excluded)) ≤ 2 ↔
      ((enabled : Int) - excluded) % 2 ^ 32 ≤ 2 := by
  have left : (countLeft enabled excluded : Int) % 2 ^ 32 =
      ((enabled : Int) - excluded) % 2 ^ 32 := by
    have same : asInt enabled % 2 ^ 32 = (enabled : Int) % 2 ^ 32 := Int.bmod_emod
    unfold countLeft
    omega
  have range : drawRange (asInt (countLeft enabled excluded)) ≤ 2 ↔
      (countLeft enabled excluded : Int) % 2 ^ 32 ≤ 2 := by
    rw [drawRange, asInt_eq]
    split <;> omega
  rw [range, left]

theorem leavesOne_iff (enabled excluded : Nat) (enabled_small : enabled < 2 ^ 31)
    (excluded_small : excluded < 2 ^ 31) (bound : enabled ≤ excluded + 1) :
    LeavesOne enabled excluded ↔ enabled = excluded + 1 := by
  unfold LeavesOne countLeft
  rw [asInt_of_lt enabled enabled_small]
  omega

namespace ElectionContext

variable (ctx : ElectionContext) (man : CMasternodeMan) (mnlevel : Nat)
  (vecToExclude : List CTxIn) (protocolVersion : Int)

def askedProtocol : Int := if protocolVersion = -1 then ctx.activeProtocol else protocolVersion

def enabledCount : Nat :=
  man.vMasternodes.countP (ctx.electable mnlevel (ctx.askedProtocol protocolVersion))

def scanRandom (mayChoose : CMasternode → Bool) : Int → List CMasternode → Option CMasternode
  | _, [] => none
  | rand, mn :: rest =>
      if mayChoose mn then
        if rand - 1 < 1 then some mn else scanRandom mayChoose (rand - 1) rest
      else scanRandom mayChoose rand rest

def mayChoose (mn : CMasternode) : Bool :=
  ctx.electable mnlevel (ctx.askedProtocol protocolVersion) mn && !isExcluded vecToExclude mn

def findRandomNotInVec (draw : Nat) : Option CMasternode :=
  if countLeft (ctx.enabledCount man mnlevel protocolVersion) vecToExclude.length < 1 then none
  else scanRandom (ctx.mayChoose mnlevel vecToExclude protocolVersion) (asInt draw) man.vMasternodes

def drawValues : Nat :=
  drawRange (asInt (countLeft (ctx.enabledCount man mnlevel protocolVersion) vecToExclude.length))

def eligible : List CMasternode :=
  man.vMasternodes.filter (ctx.mayChoose mnlevel vecToExclude protocolVersion)

/-- NULL exactly when nobody is eligible, and as many draws for one eligible masternode as for
another. -/
structure ChoosesEvenly : Prop where
  complete : ∀ draw < ctx.drawValues man mnlevel vecToExclude protocolVersion,
    ctx.findRandomNotInVec man mnlevel vecToExclude protocolVersion draw = none ↔
      ∀ mn ∈ man.vMasternodes,
        ctx.electable mnlevel (ctx.askedProtocol protocolVersion) mn = true →
          isExcluded vecToExclude mn = true
  outside : ∀ draw mn,
    ctx.findRandomNotInVec man mnlevel vecToExclude protocolVersion draw = some mn →
      isExcluded vecToExclude mn = false
  even : ∀ first ∈ ctx.eligible man mnlevel vecToExclude protocolVersion,
    ∀ second ∈ ctx.eligible man mnlevel vecToExclude protocolVersion,
      Nat.count (fun draw =>
          ctx.findRandomNotInVec man mnlevel vecToExclude protocolVersion draw = some first)
        (ctx.drawValues man mnlevel vecToExclude protocolVersion) =
      Nat.count (fun draw =>
          ctx.findRandomNotInVec man mnlevel vecToExclude protocolVersion draw = some second)
        (ctx.drawValues man mnlevel vecToExclude protocolVersion)

theorem scanRandom_eq (mayChoose : CMasternode → Bool) (rand : Int)
    (vMasternodes : List CMasternode) :
    scanRandom mayChoose rand vMasternodes =
      (vMasternodes.filter mayChoose)[(rand - 1).toNat]? := by
  induction vMasternodes generalizing rand with
  | nil => rfl
  | cons mn rest ih =>
      by_cases chosen : mayChoose mn = true
      · rw [scanRandom, if_pos chosen, List.filter_cons_of_pos chosen]
        by_cases last : rand - 1 < 1
        · have first : (rand - 1).toNat = 0 := by omega
          rw [if_pos last, first, List.getElem?_cons_zero]
        · have later : (rand - 1).toNat = (rand - 1 - 1).toNat + 1 := by omega
          rw [if_neg last, ih, later, List.getElem?_cons_succ]
      · rw [scanRandom, if_neg chosen, ih, List.filter_cons_of_neg chosen]

theorem findRandomNotInVec_eq (draw : Nat) :
    ctx.findRandomNotInVec man mnlevel vecToExclude protocolVersion draw =
      if countLeft (ctx.enabledCount man mnlevel protocolVersion) vecToExclude.length = 0 then none
      else (ctx.eligible man mnlevel vecToExclude protocolVersion)[(asInt draw - 1).toNat]? := by
  rw [findRandomNotInVec, scanRandom_eq]
  simp only [Nat.lt_one_iff]
  rfl

theorem mem_eligible (mn : CMasternode) :
    mn ∈ ctx.eligible man mnlevel vecToExclude protocolVersion ↔
      mn ∈ man.vMasternodes ∧
        ctx.electable mnlevel (ctx.askedProtocol protocolVersion) mn = true ∧
          isExcluded vecToExclude mn = false := by
  simp [eligible, mayChoose]

theorem eligible_eq_nil_iff :
    ctx.eligible man mnlevel vecToExclude protocolVersion = [] ↔
      ∀ mn ∈ man.vMasternodes,
        ctx.electable mnlevel (ctx.askedProtocol protocolVersion) mn = true →
          isExcluded vecToExclude mn = true := by
  simp [eligible, mayChoose, List.filter_eq_nil_iff]

theorem eligible_nodup : (ctx.eligible man mnlevel vecToExclude protocolVersion).Nodup :=
  (man.distinct.of_map).filter _

theorem enabledCount_le :
    ctx.enabledCount man mnlevel protocolVersion ≤
      vecToExclude.length + (ctx.eligible man mnlevel vecToExclude protocolVersion).length := by
  let enabled := man.vMasternodes.filter (ctx.electable mnlevel (ctx.askedProtocol protocolVersion))
  let shutOut := enabled.filter (isExcluded vecToExclude)
  have named : shutOut.length ≤ vecToExclude.length := by
    have outpoints : (shutOut.map fun mn => mn.vin.prevout).Nodup :=
      man.distinct.sublist ((List.filter_sublist.trans List.filter_sublist).map _)
    have covered : (shutOut.map fun mn => mn.vin.prevout) ⊆
        vecToExclude.map fun usedVin => usedVin.prevout := by
      intro prevout inside
      obtain ⟨mn, member, rfl⟩ := List.mem_map.mp inside
      have excluded := (List.mem_filter.mp member).2
      simp only [isExcluded, List.any_eq_true, beq_iff_eq] at excluded
      obtain ⟨usedVin, used, same⟩ := excluded
      exact List.mem_map.mpr ⟨usedVin, used, same.symm⟩
    have counted := (outpoints.subperm covered).length_le
    rwa [List.length_map, List.length_map] at counted
  have free : ctx.eligible man mnlevel vecToExclude protocolVersion =
      enabled.filter fun mn => !isExcluded vecToExclude mn := by
    rw [List.filter_filter]
    apply List.filter_congr
    intro mn _
    exact Bool.and_comm _ _
  have split := List.length_eq_length_filter_add (l := enabled) (isExcluded vecToExclude)
  rw [enabledCount, List.countP_eq_length_filter, free]
  change enabled.length ≤ _
  change enabled.length = shutOut.length + _ at split
  omega

theorem drawValues_pos : 0 < ctx.drawValues man mnlevel vecToExclude protocolVersion :=
  Nat.lt_of_lt_of_le Nat.zero_lt_one (Nat.le_max_left 1 _)

theorem not_even (first second : CMasternode) (rest : List CMasternode)
    (listed : ctx.eligible man mnlevel vecToExclude protocolVersion = first :: second :: rest)
    (left : countLeft (ctx.enabledCount man mnlevel protocolVersion) vecToExclude.length ≠ 0) :
    Nat.count (fun draw =>
        ctx.findRandomNotInVec man mnlevel vecToExclude protocolVersion draw = some second)
      (ctx.drawValues man mnlevel vecToExclude protocolVersion) <
    Nat.count (fun draw =>
        ctx.findRandomNotInVec man mnlevel vecToExclude protocolVersion draw = some first)
      (ctx.drawValues man mnlevel vecToExclude protocolVersion) := by
  have distinct := ctx.eligible_nodup man mnlevel vecToExclude protocolVersion
  rw [listed] at distinct
  have found (draw : Nat) :
      ctx.findRandomNotInVec man mnlevel vecToExclude protocolVersion draw =
        (first :: second :: rest)[(asInt draw - 1).toNat]? := by
    rw [findRandomNotInVec_eq, if_neg left, listed]
  apply count_lt_of_shift
  · exact ctx.drawValues_pos man mnlevel vecToExclude protocolVersion
  · exact found 0
  · intro draw chosen
    rw [found] at chosen
    have place : (asInt draw - 1).toNat = 1 := by
      have bound : (asInt draw - 1).toNat < (first :: second :: rest).length :=
        (List.getElem?_eq_some_iff.mp chosen).1
      exact (List.getElem?_inj bound distinct).mp chosen
    obtain ⟨earlier, rfl, one⟩ := asInt_eq_two draw (by omega)
    refine ⟨earlier, rfl, ?_, ?_⟩
    · rintro rfl
      cases one
    · rw [found, one]
      rfl

theorem outside_of_find (draw : Nat) (mn : CMasternode)
    (chosen : ctx.findRandomNotInVec man mnlevel vecToExclude protocolVersion draw = some mn) :
    isExcluded vecToExclude mn = false := by
  rw [findRandomNotInVec_eq] at chosen
  split at chosen
  next => cases chosen
  next =>
    have listed := List.mem_of_getElem? chosen
    exact ((ctx.mem_eligible man mnlevel vecToExclude protocolVersion mn).mp listed).2.2

theorem ChoosesEvenly.left {ctx : ElectionContext} {man : CMasternodeMan} {mnlevel : Nat}
    {vecToExclude : List CTxIn} {protocolVersion : Int}
    (evenly : ctx.ChoosesEvenly man mnlevel vecToExclude protocolVersion)
    (somebody : ctx.eligible man mnlevel vecToExclude protocolVersion ≠ []) :
    countLeft (ctx.enabledCount man mnlevel protocolVersion) vecToExclude.length ≠ 0 := by
  intro zero
  have nobody : ctx.findRandomNotInVec man mnlevel vecToExclude protocolVersion 0 = none := by
    rw [findRandomNotInVec_eq, if_pos zero]
  have inside := ctx.drawValues_pos man mnlevel vecToExclude protocolVersion
  rw [evenly.complete 0 inside, ← eligible_eq_nil_iff] at nobody
  exact somebody nobody

theorem choosesEvenly_of_nil
    (nobody : ctx.eligible man mnlevel vecToExclude protocolVersion = []) :
    ctx.ChoosesEvenly man mnlevel vecToExclude protocolVersion where
  complete draw _ := by
    rw [← eligible_eq_nil_iff, findRandomNotInVec_eq, nobody]
    simp
  outside := ctx.outside_of_find man mnlevel vecToExclude protocolVersion
  even first listed := by
    rw [nobody] at listed
    cases listed

theorem choosesEvenly_of_single (only : CMasternode)
    (single : ctx.eligible man mnlevel vecToExclude protocolVersion = [only])
    (leaves : LeavesOne (ctx.enabledCount man mnlevel protocolVersion) vecToExclude.length) :
    ctx.ChoosesEvenly man mnlevel vecToExclude protocolVersion where
  complete draw inside := by
    have range := (drawRange_le_two _ _).mpr leaves.2
    have small : draw < 2 := Nat.lt_of_lt_of_le inside range
    have first : (asInt draw - 1).toNat = 0 := by
      rw [asInt_of_lt draw (by omega)]
      omega
    rw [← eligible_eq_nil_iff, findRandomNotInVec_eq, if_neg leaves.1, single, first]
    simp
  outside := ctx.outside_of_find man mnlevel vecToExclude protocolVersion
  even first first_listed second second_listed := by
    rw [single, List.mem_singleton] at first_listed second_listed
    rw [first_listed, second_listed]

theorem leavesOne_of_evenly (evenly : ctx.ChoosesEvenly man mnlevel vecToExclude protocolVersion)
    (only : CMasternode)
    (single : ctx.eligible man mnlevel vecToExclude protocolVersion = [only]) :
    LeavesOne (ctx.enabledCount man mnlevel protocolVersion) vecToExclude.length := by
  have left := evenly.left (by simp [single])
  refine ⟨left, (drawRange_le_two _ _).mp ?_⟩
  by_contra above
  -- the third draw passes over the only masternode
  have nobody : ctx.findRandomNotInVec man mnlevel vecToExclude protocolVersion 2 = none := by
    rw [findRandomNotInVec_eq, if_neg left, single]
    rfl
  rw [evenly.complete 2 (Nat.lt_of_not_le above), ← eligible_eq_nil_iff, single] at nobody
  cases nobody

theorem choosesEvenly_iff :
    ctx.ChoosesEvenly man mnlevel vecToExclude protocolVersion ↔
      (ctx.eligible man mnlevel vecToExclude protocolVersion).length = 0 ∨
        (ctx.eligible man mnlevel vecToExclude protocolVersion).length = 1 ∧
          LeavesOne (ctx.enabledCount man mnlevel protocolVersion) vecToExclude.length := by
  constructor
  · intro evenly
    match listed : ctx.eligible man mnlevel vecToExclude protocolVersion with
    | [] => exact .inl rfl
    | [only] =>
        exact .inr ⟨rfl, ctx.leavesOne_of_evenly man mnlevel vecToExclude protocolVersion evenly
          only listed⟩
    | first :: second :: rest =>
        have left := evenly.left (by simp [listed])
        have less := ctx.not_even man mnlevel vecToExclude protocolVersion first second rest listed
          left
        have same := evenly.even first (by simp [listed]) second (by simp [listed])
        exact absurd same.symm (Nat.ne_of_lt less)
  · intro settled
    cases settled with
    | inl nobody =>
        exact ctx.choosesEvenly_of_nil man mnlevel vecToExclude protocolVersion
          (List.length_eq_zero_iff.mp nobody)
    | inr one =>
        obtain ⟨only, single⟩ := List.length_eq_one_iff.mp one.1
        exact ctx.choosesEvenly_of_single man mnlevel vecToExclude protocolVersion only single one.2

/-- The choice is complete and even exactly when nobody is eligible, or one masternode is and the
enabled ones are one more than the entries of the vector; the second part says so in plain
numbers for sizes that an int can hold. -/
theorem findRandomNotInVec_even_iff :
    (ctx.ChoosesEvenly man mnlevel vecToExclude protocolVersion ↔
      (ctx.eligible man mnlevel vecToExclude protocolVersion).length = 0 ∨
        (ctx.eligible man mnlevel vecToExclude protocolVersion).length = 1 ∧
          LeavesOne (ctx.enabledCount man mnlevel protocolVersion) vecToExclude.length) ∧
    (ctx.enabledCount man mnlevel protocolVersion < 2 ^ 31 → vecToExclude.length < 2 ^ 31 →
      (ctx.ChoosesEvenly man mnlevel vecToExclude protocolVersion ↔
        (ctx.eligible man mnlevel vecToExclude protocolVersion).length = 0 ∨
          (ctx.eligible man mnlevel vecToExclude protocolVersion).length = 1 ∧
            ctx.enabledCount man mnlevel protocolVersion = vecToExclude.length + 1)) := by
  have exact_iff := ctx.choosesEvenly_iff man mnlevel vecToExclude protocolVersion
  refine ⟨exact_iff, ?_⟩
  intro enabled_small excluded_small
  rw [exact_iff]
  refine or_congr Iff.rfl (and_congr_right fun one => ?_)
  have bound := ctx.enabledCount_le man mnlevel vecToExclude protocolVersion
  rw [one] at bound
  exact leavesOne_iff _ _ enabled_small excluded_small bound

end ElectionContext

open Tied in
theorem findRandomNotInVec_even_last :
    ctx.ChoosesEvenly man 2 [vin 0] (-1) :=
  ((ElectionContext.findRandomNotInVec_even_iff ctx man 2 [vin 0] (-1)).2 (by decide +kernel)
    (by decide +kernel)).mpr (.inr (by decide +kernel))

open Tied in
theorem findRandomNotInVec_misses_second :
    ctx.drawValues man 2 [] (-1) = 2 ∧
      (∀ draw < 2, ctx.findRandomNotInVec man 2 [] (-1) draw = some (masternode 0)) ∧
        masternode 1 ∈ ctx.eligible man 2 [] (-1) ∧ ¬ ctx.ChoosesEvenly man 2 [] (-1) := by
  refine ⟨by decide +kernel, by decide +kernel, by decide +kernel, ?_⟩
  intro evenly
  have same := evenly.even (masternode 0) (by decide +kernel) (masternode 1) (by decide +kernel)
  revert same
  decide +kernel

end CryptoYen
