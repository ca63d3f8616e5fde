import CryptoYen.Consensus.Compact

set_option autoImplicit false

namespace CryptoYen

def CBlockIndex.target (pindex : CBlockIndex) : Nat := (setCompact pindex.nBits).bnTarget.toNat

structure RunningAverage where
  count : Nat
  average : Nat
  deriving DecidableEq

namespace RunningAverage

def start : RunningAverage := ⟨0, 0⟩

def numerator (run : RunningAverage) (target : Nat) : Nat := run.average * (run.count + 1) + target

def read (run : RunningAverage) (target : Nat) : RunningAverage :=
  { count := run.count + 1
    average := if run.count = 0 then target else run.numerator target / (run.count + 2) }

def Fits (run : RunningAverage) : List Nat → Prop
  | [] => True
  | target :: older =>
      (0 < run.count → run.numerator target < 2 ^ 256) ∧ Fits (run.read target) older

instance decidableFits (run : RunningAverage) (targets : List Nat) : Decidable (run.Fits targets) :=
  match targets with
  | [] => inferInstanceAs (Decidable True)
  | target :: older =>
      have := decidableFits (run.read target) older
      inferInstanceAs (Decidable ((0 < run.count → run.numerator target < 2 ^ 256) ∧
        Fits (run.read target) older))

theorem average_le (limit : Nat) (run : RunningAverage) (below : run.average ≤ limit)
    (targets : List Nat) (limited : ∀ target ∈ targets, target ≤ limit) :
    (targets.foldl read run).average ≤ limit := by
  induction targets generalizing run with
  | nil => exact below
  | cons target older ih =>
    have this_target := limited target List.mem_cons_self
    apply ih
    · rw [read]
      split
      next => exact this_target
      next =>
        have weighted : run.numerator target ≤ limit * (run.count + 1) + limit :=
          Nat.add_le_add (Nat.mul_le_mul_right _ below) this_target
        rw [show limit * (run.count + 1) + limit = limit * (run.count + 2) by ring] at weighted
        exact Nat.div_le_of_le_mul (by rwa [Nat.mul_comm] at weighted)
    · exact fun older_target member => limited older_target (List.mem_cons_of_mem _ member)

theorem fits_of_limit (limit : Nat) (room : limit < 2 ^ 243) (run : RunningAverage)
    (below : run.average ≤ limit) (targets : List Nat)
    (short : run.count + targets.length ≤ pastBlocks)
    (limited : ∀ target ∈ targets, target ≤ limit) : run.Fits targets := by
  induction targets generalizing run with
  | nil => trivial
  | cons target older ih =>
    rw [List.length_cons] at short
    have this_target := limited target List.mem_cons_self
    have next_below := average_le limit run below [target] (by simpa using this_target)
    constructor
    · intro _
      have weighted : run.average * (run.count + 1) ≤ 2 ^ 243 * 24 :=
        Nat.mul_le_mul (by omega) (by rw [pastBlocks] at short; omega)
      rw [numerator]
      omega
    · apply ih (run.read target) next_below
      · have counted : (run.read target).count = run.count + 1 := rfl
        omega
      · exact fun older_target member => limited older_target (List.mem_cons_of_mem _ member)

end RunningAverage

namespace Retarget

def gravityBlocks (chain : CChain) : List CBlockIndex :=
  (chain.takeWhile fun pindex => 0 < pindex.nHeight).take pastBlocks

def gravityAverage (blocks : List CBlockIndex) : Nat :=
  ((blocks.map CBlockIndex.target).foldl RunningAverage.read RunningAverage.start).average

-- A block time of zero drops the step behind it.
def timespan (lastBlockTime : Int) : List CBlockIndex → Int
  | [] => 0
  | pindex :: older =>
      (if 0 < lastBlockTime then lastBlockTime - pindex.getBlockTime else 0) +
        timespan pindex.getBlockTime older

def gravityDivisor (params : CChainParams) (blocks : List CBlockIndex) : Nat :=
  blocks.length * params.nTargetSpacing.toNat

def gravityMultiplier (params : CChainParams) (blocks : List CBlockIndex) : Nat :=
  max (gravityDivisor params blocks / 3)
    (min (gravityDivisor params blocks * 3) (timespan 0 blocks).toNat)

def stakeSpacing (pindexLast pprev : CBlockIndex) : Nat :=
  if pindexLast.nTime < pprev.nTime then 1 else pindexLast.nTime - pprev.nTime

def stakeMultiplier (pindexLast pprev : CBlockIndex) : Nat :=
  39 * 60 + 2 * stakeSpacing pindexLast pprev

def stakeDivisor : Nat := 41 * 60

def stakeQuotient (pindexLast pprev : CBlockIndex) : Nat :=
  pindexLast.target * stakeMultiplier pindexLast pprev / stakeDivisor

def gravityQuotient (params : CChainParams) (blocks : List CBlockIndex) : Nat :=
  gravityAverage blocks * gravityMultiplier params blocks / gravityDivisor params blocks

def formula (params : CChainParams) : CChain → Nat
  | pindexLast :: pprev :: ancestors =>
      if pindexLast.nHeight < pastBlocks then params.bnProofOfWorkLimit.toNat
      else if params.nLastPOWBlock < pindexLast.nHeight then
        if stakeQuotient pindexLast pprev = 0 then proofOfStakeLimit.toNat
        else min proofOfStakeLimit.toNat (stakeQuotient pindexLast pprev)
      else
        min params.bnProofOfWorkLimit.toNat
          (gravityQuotient params (gravityBlocks (pindexLast :: pprev :: ancestors)))
  | _ => params.bnProofOfWorkLimit.toNat

def StakeFits (pindexLast pprev : CBlockIndex) : Prop :=
  stakeMultiplier pindexLast pprev < 2 ^ 32 ∧
    pindexLast.target * stakeMultiplier pindexLast pprev < 2 ^ 256

def GravityFits (params : CChainParams) (blocks : List CBlockIndex) : Prop :=
  RunningAverage.start.Fits (blocks.map CBlockIndex.target) ∧
    gravityAverage blocks * gravityMultiplier params blocks < 2 ^ 256 ∧
    gravityDivisor params blocks ≤ gravityAverage blocks * gravityMultiplier params blocks

-- The sums and products stay inside the width, and the averaged one reaches its divisor.
def Fits (params : CChainParams) : CChain → Prop
  | pindexLast :: pprev :: ancestors =>
      if pindexLast.nHeight < pastBlocks then True
      else if params.nLastPOWBlock < pindexLast.nHeight then StakeFits pindexLast pprev
      else GravityFits params (gravityBlocks (pindexLast :: pprev :: ancestors))
  | _ => True

end Retarget

structure ProductExact (bn : Uint256) (factor : Int) : Prop where
  kept : ((BitVec.ofInt 32 factor).toNat : Int) = factor
  unwrapped : ((mulUint32 bn factor).toNat : Int) = bn.toNat * factor

namespace GravityWell

def target (blockReading : CBlockIndex) : Uint256 := (setCompact blockReading.nBits).bnTarget

structure ReadExact (well : GravityWell) (blockReading : CBlockIndex) : Prop where
  product : ProductExact well.pastDifficultyAverage (well.countBlocks + 1 : Nat)
  sum : (mulUint32 well.pastDifficultyAverage (well.countBlocks + 1 : Nat) +
      target blockReading).toNat =
    well.pastDifficultyAverage.toNat * (well.countBlocks + 1) + (target blockReading).toNat

def ReadsExact (well : GravityWell) : List CBlockIndex → Prop
  | [] => True
  | blockReading :: older =>
      (0 < well.countBlocks → well.ReadExact blockReading) ∧
        ReadsExact (well.read blockReading) older

end GravityWell

def ProductsExact (params : CChainParams) : CChain → Prop
  | pindexLast :: pprev :: ancestors =>
      if pindexLast.nHeight < pastBlocks then True
      else if params.nLastPOWBlock < pindexLast.nHeight then
        ProductExact (setCompact pindexLast.nBits).bnTarget
          (Retarget.stakeMultiplier pindexLast pprev)
      else
        let blocks := Retarget.gravityBlocks (pindexLast :: pprev :: ancestors)
        GravityWell.start.ReadsExact blocks ∧
          ProductExact (blocks.foldl GravityWell.read GravityWell.start).pastDifficultyAverage
            (Retarget.gravityMultiplier params blocks)
  | _ => True

structure RetargetExact (params : CChainParams) (chain : CChain) : Prop where
  formula : getNextWorkRequired params chain =
    getCompact (BitVec.ofNat 256 (Retarget.formula params chain))
  products : ProductsExact params chain
  nonZero : (setCompact (getNextWorkRequired params chain)).bnTarget ≠ 0

theorem productExact_iff (bn : Uint256) (factor : Nat) :
    ProductExact bn factor ↔ factor < 2 ^ 32 ∧ bn.toNat * factor < 2 ^ 256 := by
  have narrowed : (BitVec.ofInt 32 factor).toNat = factor % 2 ^ 32 := by
    rw [BitVec.ofInt_natCast, BitVec.toNat_ofNat]
  have product : (mulUint32 bn factor).toNat = bn.toNat * (factor % 2 ^ 32) % 2 ^ 256 := by
    rw [mulUint32, BitVec.toNat_mul, BitVec.toNat_setWidth, narrowed,
      Nat.mod_eq_of_lt (show factor % 2 ^ 32 < 2 ^ 256 by omega)]
  constructor
  · intro exact_product
    have kept := exact_product.kept
    have unwrapped := exact_product.unwrapped
    rw [narrowed] at kept
    have small : factor < 2 ^ 32 := by omega
    rw [product, Nat.mod_eq_of_lt small, ← Int.natCast_mul, Int.natCast_inj] at unwrapped
    exact ⟨small, unwrapped ▸ Nat.mod_lt _ (Nat.two_pow_pos 256)⟩
  · intro fits
    obtain ⟨small, inside⟩ := fits
    constructor
    · rw [narrowed, Nat.mod_eq_of_lt small]
    · rw [product, Nat.mod_eq_of_lt small, Nat.mod_eq_of_lt inside, Int.natCast_mul]

theorem divUint64_toNat (bn : Uint256) (divisor : Nat) (small : divisor < 2 ^ 64) :
    (divUint64 bn divisor).toNat = bn.toNat / divisor := by
  rw [divUint64, BitVec.toNat_udiv, BitVec.toNat_setWidth, BitVec.ofInt_natCast,
    BitVec.toNat_ofNat, Nat.mod_eq_of_lt small, Nat.mod_eq_of_lt (by omega)]

theorem quotient_toNat (bn : Uint256) (factor divisor : Nat) (product : ProductExact bn factor)
    (small : divisor < 2 ^ 64) :
    (divUint64 (mulUint32 bn factor) divisor).toNat = bn.toNat * factor / divisor := by
  have unwrapped := product.unwrapped
  rw [← Int.natCast_mul, Int.natCast_inj] at unwrapped
  rw [divUint64_toNat _ _ small, unwrapped]

section averaging

variable (well : GravityWell) (run : RunningAverage)

-- The code's average is the integer one as long as nothing has been lost.
structure Tracks : Prop where
  count : well.countBlocks = run.count
  average : well.pastDifficultyAverage.toNat = run.average

variable {well run}

theorem readExact_iff (tracks : Tracks well run) (short : run.count < pastBlocks)
    (blockReading : CBlockIndex) :
    well.ReadExact blockReading ↔ run.numerator blockReading.target < 2 ^ 256 := by
  have small : run.count + 1 < 2 ^ 32 := by
    rw [pastBlocks] at short
    omega
  constructor
  · intro read_exact
    have sum := read_exact.sum
    have bound := (mulUint32 well.pastDifficultyAverage (well.countBlocks + 1 : Nat) +
      GravityWell.target blockReading).isLt
    rw [sum, tracks.count, tracks.average] at bound
    exact bound
  · intro fits
    rw [RunningAverage.numerator] at fits
    have product : ProductExact well.pastDifficultyAverage (well.countBlocks + 1 : Nat) := by
      rw [productExact_iff, tracks.count, tracks.average]
      exact ⟨small, by omega⟩
    have unwrapped := product.unwrapped
    rw [← Int.natCast_mul, Int.natCast_inj] at unwrapped
    refine ⟨product, ?_⟩
    rw [BitVec.toNat_add, unwrapped, tracks.count, tracks.average]
    exact Nat.mod_eq_of_lt fits

theorem Tracks.read (tracks : Tracks well run) (short : run.count < pastBlocks)
    (blockReading : CBlockIndex)
    (fits : 0 < run.count → run.numerator blockReading.target < 2 ^ 256) :
    Tracks (well.read blockReading) (run.read blockReading.target) := by
  have small : run.count + 2 < 2 ^ 64 := by
    rw [pastBlocks] at short
    omega
  constructor
  · rw [GravityWell.read, RunningAverage.read, tracks.count]
  · by_cases first : run.count = 0
    · simp [GravityWell.read, RunningAverage.read, tracks.count, first, CBlockIndex.target]
    · have read_exact := (readExact_iff tracks short blockReading).mpr (fits (by omega))
      have sum := read_exact.sum
      have later : ¬ well.countBlocks + 1 = 1 := by
        rw [tracks.count]
        omega
      have average : (well.read blockReading).pastDifficultyAverage =
          divUint64 (mulUint32 well.pastDifficultyAverage (well.countBlocks + 1 : Nat) +
            GravityWell.target blockReading) (run.count + 2 : Nat) := by
        rw [GravityWell.read, if_neg later, ← tracks.count]
        rfl
      rw [average, divUint64_toNat _ _ small, sum, tracks.count, tracks.average,
        RunningAverage.read, if_neg first]
      rfl

theorem readsExact_iff (tracks : Tracks well run) (blocks : List CBlockIndex)
    (short : run.count + blocks.length ≤ pastBlocks) :
    well.ReadsExact blocks ↔ run.Fits (blocks.map CBlockIndex.target) := by
  induction blocks generalizing well run with
  | nil => exact Iff.rfl
  | cons blockReading older ih =>
    rw [List.length_cons] at short
    have room : run.count < pastBlocks := by omega
    have counted : (run.read blockReading.target).count = run.count + 1 := rfl
    rw [GravityWell.ReadsExact, List.map_cons, RunningAverage.Fits, tracks.count,
      readExact_iff tracks room]
    apply and_congr_right
    intro fits
    exact ih (tracks.read room blockReading fits) (by omega)

theorem Tracks.reads (tracks : Tracks well run) (blocks : List CBlockIndex)
    (short : run.count + blocks.length ≤ pastBlocks)
    (fits : run.Fits (blocks.map CBlockIndex.target)) :
    Tracks (blocks.foldl GravityWell.read well)
      ((blocks.map CBlockIndex.target).foldl RunningAverage.read run) := by
  induction blocks generalizing well run with
  | nil => exact tracks
  | cons blockReading older ih =>
    rw [List.length_cons] at short
    have counted : (run.read blockReading.target).count = run.count + 1 := rfl
    rw [List.map_cons, RunningAverage.Fits] at fits
    exact ih (tracks.read (by omega) blockReading fits.1) (by omega) fits.2

end averaging

theorem reads_timespan (well : GravityWell) (blocks : List CBlockIndex) :
    (blocks.foldl GravityWell.read well).nActualTimespan =
      well.nActualTimespan + Retarget.timespan well.lastBlockTime blocks := by
  induction blocks generalizing well with
  | nil => simp [Retarget.timespan]
  | cons blockReading older ih =>
    rw [List.foldl_cons, ih, Retarget.timespan]
    by_cases timed : 0 < well.lastBlockTime
    · simp [GravityWell.read, timed, add_assoc]
    · simp [GravityWell.read, timed]

theorem reads_count (well : GravityWell) (blocks : List CBlockIndex) :
    (blocks.foldl GravityWell.read well).countBlocks = well.countBlocks + blocks.length := by
  induction blocks generalizing well with
  | nil => rfl
  | cons blockReading older ih =>
    have counted : (well.read blockReading).countBlocks = well.countBlocks + 1 := rfl
    rw [List.foldl_cons, ih, List.length_cons]
    omega

theorem capped_eq (limit bn : Uint256) :
    (if limit < bn then limit else bn) = BitVec.ofNat 256 (min limit.toNat bn.toNat) := by
  split
  next above => rw [Nat.min_eq_left (Nat.le_of_lt above), BitVec.ofNat_toNat, BitVec.setWidth_eq]
  next inside =>
    rw [Nat.min_eq_right (Nat.le_of_not_lt inside), BitVec.ofNat_toNat, BitVec.setWidth_eq]

section stake

variable (pindexLast pprev : CBlockIndex)

theorem proofOfStakeWork_eq : proofOfStakeWork pindexLast pprev =
    let bnNew := divUint64 (mulUint32 (setCompact pindexLast.nBits).bnTarget
      (Retarget.stakeMultiplier pindexLast pprev)) Retarget.stakeDivisor
    getCompact (if bnNew = 0 ∨ proofOfStakeLimit < bnNew then proofOfStakeLimit else bnNew) := by
  have factor : (40 - 1 : Int) * 60 +
      (if pindexLast.getBlockTime - pprev.getBlockTime < 0 then 1
        else pindexLast.getBlockTime - pprev.getBlockTime) +
      (if pindexLast.getBlockTime - pprev.getBlockTime < 0 then 1
        else pindexLast.getBlockTime - pprev.getBlockTime) =
      Retarget.stakeMultiplier pindexLast pprev := by
    rw [Retarget.stakeMultiplier, Retarget.stakeSpacing, CBlockIndex.getBlockTime,
      CBlockIndex.getBlockTime]
    split <;> split <;> omega
  rw [proofOfStakeWork]
  simp only [factor]
  rfl

theorem proofOfStakeWork_nonzero :
    (setCompact (proofOfStakeWork pindexLast pprev)).bnTarget ≠ 0 := by
  rw [proofOfStakeWork_eq]
  apply getCompact_nonzero
  split
  next => decide
  next inside => exact fun zero => inside (.inl zero)

theorem proofOfStakeWork_formula (product : ProductExact (setCompact pindexLast.nBits).bnTarget
      (Retarget.stakeMultiplier pindexLast pprev)) :
    proofOfStakeWork pindexLast pprev = getCompact (BitVec.ofNat 256
      (if Retarget.stakeQuotient pindexLast pprev = 0 then proofOfStakeLimit.toNat
        else min proofOfStakeLimit.toNat (Retarget.stakeQuotient pindexLast pprev))) := by
  have quotient := quotient_toNat _ _ Retarget.stakeDivisor product (by decide)
  rw [proofOfStakeWork_eq]
  generalize divUint64 _ _ = bnNew at quotient
  have isQuotient : bnNew.toNat = Retarget.stakeQuotient pindexLast pprev := quotient
  simp only [← isQuotient, BaseUint.toNat_eq_zero]
  by_cases zero : bnNew = 0
  · simp [zero]
  · simp only [zero, false_or, if_false, capped_eq]

end stake

theorem clamped_timespan (nTargetTimespan : Nat) (nActualTimespan : Int) :
    (if nActualTimespan < (nTargetTimespan : Int).tdiv 3 then (nTargetTimespan : Int).tdiv 3
      else if (nTargetTimespan : Int) * 3 < nActualTimespan then (nTargetTimespan : Int) * 3
      else nActualTimespan) =
    (max (nTargetTimespan / 3) (min (nTargetTimespan * 3) nActualTimespan.toNat) : Nat) := by
  rw [Int.tdiv_eq_ediv_of_nonneg (Int.natCast_nonneg _)]
  split
  next => omega
  next => split <;> omega

section gravity

variable (params : CChainParams) (chain : CChain) (spacing : params.nTargetSpacing = 60)

include spacing

theorem darkGravityWork_eq : darkGravityWork params chain =
    let blocks := Retarget.gravityBlocks chain
    let bnNew := divUint64 (mulUint32
      (blocks.foldl GravityWell.read GravityWell.start).pastDifficultyAverage
        (Retarget.gravityMultiplier params blocks)) (Retarget.gravityDivisor params blocks)
    getCompact (if params.bnProofOfWorkLimit < bnNew then params.bnProofOfWorkLimit else bnNew) := by
  have divisor : ((Retarget.gravityBlocks chain).length : Int) * params.nTargetSpacing =
      (Retarget.gravityDivisor params (Retarget.gravityBlocks chain) : Nat) := by
    rw [Retarget.gravityDivisor, spacing]
    simp
  have count := reads_count GravityWell.start (Retarget.gravityBlocks chain)
  have span := reads_timespan GravityWell.start (Retarget.gravityBlocks chain)
  have initial_count : GravityWell.start.countBlocks = 0 := rfl
  have initial_span : GravityWell.start.nActualTimespan = 0 := rfl
  have initial_time : GravityWell.start.lastBlockTime = 0 := rfl
  rw [initial_count, Nat.zero_add] at count
  rw [initial_span, initial_time, Int.zero_add] at span
  simp only [darkGravityWork, ← Retarget.gravityBlocks.eq_1 chain, count, span, divisor,
    clamped_timespan]
  rfl

omit spacing

theorem gravityBlocks_short : (Retarget.gravityBlocks chain).length ≤ pastBlocks :=
  List.length_take_le _ _

theorem tracks_start : Tracks GravityWell.start RunningAverage.start :=
  ⟨rfl, rfl⟩

theorem gravityAverage_eq (fits : RunningAverage.start.Fits
      ((Retarget.gravityBlocks chain).map CBlockIndex.target)) :
    ((Retarget.gravityBlocks chain).foldl GravityWell.read
      GravityWell.start).pastDifficultyAverage.toNat =
      Retarget.gravityAverage (Retarget.gravityBlocks chain) := by
  have short : RunningAverage.start.count + (Retarget.gravityBlocks chain).length ≤ pastBlocks := by
    rw [RunningAverage.start, Nat.zero_add]
    exact gravityBlocks_short chain
  exact (tracks_start.reads _ short fits).average

theorem gravityProducts_iff :
    (GravityWell.start.ReadsExact (Retarget.gravityBlocks chain) ∧
        ProductExact
          ((Retarget.gravityBlocks chain).foldl GravityWell.read
            GravityWell.start).pastDifficultyAverage
          (Retarget.gravityMultiplier params (Retarget.gravityBlocks chain))) ↔
      RunningAverage.start.Fits ((Retarget.gravityBlocks chain).map CBlockIndex.target) ∧
        Retarget.gravityMultiplier params (Retarget.gravityBlocks chain) < 2 ^ 32 ∧
        Retarget.gravityAverage (Retarget.gravityBlocks chain) *
          Retarget.gravityMultiplier params (Retarget.gravityBlocks chain) < 2 ^ 256 := by
  have short : RunningAverage.start.count + (Retarget.gravityBlocks chain).length ≤ pastBlocks := by
    rw [RunningAverage.start, Nat.zero_add]
    exact gravityBlocks_short chain
  rw [readsExact_iff tracks_start _ short]
  apply and_congr_right
  intro fits
  rw [productExact_iff, gravityAverage_eq chain fits]

include spacing

theorem gravityMultiplier_lt :
    Retarget.gravityMultiplier params (Retarget.gravityBlocks chain) ≤ 4320 := by
  have short := gravityBlocks_short chain
  rw [pastBlocks] at short
  have minute : params.nTargetSpacing.toNat = 60 := by
    rw [spacing]
    rfl
  rw [Retarget.gravityMultiplier, Retarget.gravityDivisor, minute]
  omega

theorem darkGravityWork_formula
    (products : GravityWell.start.ReadsExact (Retarget.gravityBlocks chain) ∧
      ProductExact
        ((Retarget.gravityBlocks chain).foldl GravityWell.read
          GravityWell.start).pastDifficultyAverage
        (Retarget.gravityMultiplier params (Retarget.gravityBlocks chain))) :
    darkGravityWork params chain = getCompact (BitVec.ofNat 256
      (min params.bnProofOfWorkLimit.toNat
        (Retarget.gravityQuotient params (Retarget.gravityBlocks chain)))) := by
  obtain ⟨fits, _⟩ := (gravityProducts_iff params chain).mp products
  have short := gravityBlocks_short chain
  rw [pastBlocks] at short
  have minute : params.nTargetSpacing.toNat = 60 := by
    rw [spacing]
    rfl
  have small : Retarget.gravityDivisor params (Retarget.gravityBlocks chain) < 2 ^ 64 := by
    rw [Retarget.gravityDivisor, minute]
    omega
  have quotient := quotient_toNat _ _ _ products.2 small
  rw [gravityAverage_eq chain fits] at quotient
  rw [darkGravityWork_eq params chain spacing]
  dsimp only
  rw [capped_eq, quotient]
  rfl

end gravity

theorem getCompact_nonzero_iff (value : Nat) (inside : value < 2 ^ 256) :
    (setCompact (getCompact (BitVec.ofNat 256 value))).bnTarget ≠ 0 ↔ value ≠ 0 := by
  have zero : BitVec.ofNat 256 value = 0 ↔ value = 0 := by
    rw [← BaseUint.toNat_eq_zero, BitVec.toNat_ofNat, Nat.mod_eq_of_lt inside]
  constructor
  · intro decoded isZero
    rw [zero.mpr isZero] at decoded
    exact decoded (by decide)
  · intro nonzero
    exact getCompact_nonzero _ (mt zero.mp nonzero)

theorem networks_spacing (params : CChainParams) (network : params ∈ CChainParams.networks) :
    params.nTargetSpacing = 60 ∧ params.bnProofOfWorkLimit ≠ 0 := by
  revert params
  decide

theorem gravity_exact_iff (params : CChainParams) (chain : CChain)
    (spacing : params.nTargetSpacing = 60) (limited : params.bnProofOfWorkLimit ≠ 0)
    (reads : Retarget.gravityBlocks chain ≠ []) :
    (darkGravityWork params chain = getCompact (BitVec.ofNat 256
        (min params.bnProofOfWorkLimit.toNat
          (Retarget.gravityQuotient params (Retarget.gravityBlocks chain)))) ∧
      (GravityWell.start.ReadsExact (Retarget.gravityBlocks chain) ∧
        ProductExact
          ((Retarget.gravityBlocks chain).foldl GravityWell.read
            GravityWell.start).pastDifficultyAverage
          (Retarget.gravityMultiplier params (Retarget.gravityBlocks chain))) ∧
      (setCompact (darkGravityWork params chain)).bnTarget ≠ 0) ↔
      Retarget.GravityFits params (Retarget.gravityBlocks chain) := by
  have short := gravityMultiplier_lt params chain spacing
  have bound := params.bnProofOfWorkLimit.isLt
  have positive := mt (BaseUint.toNat_eq_zero _).mp limited
  have divides : 0 < Retarget.gravityDivisor params (Retarget.gravityBlocks chain) := by
    have length := List.length_pos_iff.mpr reads
    rw [Retarget.gravityDivisor, spacing]
    exact Nat.mul_pos length (by decide)
  have reached : min params.bnProofOfWorkLimit.toNat
      (Retarget.gravityQuotient params (Retarget.gravityBlocks chain)) ≠ 0 ↔
      Retarget.gravityDivisor params (Retarget.gravityBlocks chain) ≤
        Retarget.gravityAverage (Retarget.gravityBlocks chain) *
          Retarget.gravityMultiplier params (Retarget.gravityBlocks chain) := by
    have quotient : 0 < Retarget.gravityQuotient params (Retarget.gravityBlocks chain) ↔
        Retarget.gravityDivisor params (Retarget.gravityBlocks chain) ≤
          Retarget.gravityAverage (Retarget.gravityBlocks chain) *
            Retarget.gravityMultiplier params (Retarget.gravityBlocks chain) := by
      rw [Retarget.gravityQuotient, Nat.div_pos_iff]
      exact and_iff_right divides
    omega
  constructor
  · intro exact_work
    obtain ⟨formula, products, nonzero⟩ := exact_work
    obtain ⟨fits, _, inside⟩ := (gravityProducts_iff params chain).mp products
    rw [formula, getCompact_nonzero_iff _ (by omega), reached] at nonzero
    exact ⟨fits, inside, nonzero⟩
  · intro fits
    have products := (gravityProducts_iff params chain).mpr ⟨fits.1, by omega, fits.2.1⟩
    have formula := darkGravityWork_formula params chain spacing products
    refine ⟨formula, products, ?_⟩
    rw [formula, getCompact_nonzero_iff _ (by omega), reached]
    exact fits.2.2

theorem stake_exact_iff (pindexLast pprev : CBlockIndex) :
    (proofOfStakeWork pindexLast pprev = getCompact (BitVec.ofNat 256
        (if Retarget.stakeQuotient pindexLast pprev = 0 then proofOfStakeLimit.toNat
          else min proofOfStakeLimit.toNat (Retarget.stakeQuotient pindexLast pprev))) ∧
      ProductExact (setCompact pindexLast.nBits).bnTarget
        (Retarget.stakeMultiplier pindexLast pprev) ∧
      (setCompact (proofOfStakeWork pindexLast pprev)).bnTarget ≠ 0) ↔
      Retarget.StakeFits pindexLast pprev := by
  have nonzero := proofOfStakeWork_nonzero pindexLast pprev
  rw [Retarget.StakeFits, CBlockIndex.target, ← productExact_iff]
  constructor
  · exact fun exact_work => exact_work.2.1
  · exact fun product => ⟨proofOfStakeWork_formula pindexLast pprev product, product, nonzero⟩

theorem gravityFits_iff (params : CChainParams) (chain : CChain)
    (spacing : params.nTargetSpacing = 60) (room : params.bnProofOfWorkLimit.toNat < 2 ^ 243)
    (limited : ∀ pindex ∈ chain, pindex.target ≤ params.bnProofOfWorkLimit.toNat) :
    Retarget.GravityFits params (Retarget.gravityBlocks chain) ↔
      Retarget.gravityDivisor params (Retarget.gravityBlocks chain) ≤
        Retarget.gravityAverage (Retarget.gravityBlocks chain) *
          Retarget.gravityMultiplier params (Retarget.gravityBlocks chain) := by
  have targets : ∀ target ∈ (Retarget.gravityBlocks chain).map CBlockIndex.target,
      target ≤ params.bnProofOfWorkLimit.toNat := by
    intro target member
    obtain ⟨pindex, read, rfl⟩ := List.mem_map.mp member
    exact limited pindex ((List.takeWhile_sublist _).mem (List.mem_of_mem_take read))
  have short : RunningAverage.start.count +
      ((Retarget.gravityBlocks chain).map CBlockIndex.target).length ≤ pastBlocks := by
    rw [RunningAverage.start, Nat.zero_add, List.length_map]
    exact gravityBlocks_short chain
  have below : RunningAverage.start.average ≤ params.bnProofOfWorkLimit.toNat := Nat.zero_le _
  have fits := RunningAverage.fits_of_limit _ room _ below _ short targets
  have average : Retarget.gravityAverage (Retarget.gravityBlocks chain) ≤ 2 ^ 243 := by
    have le := RunningAverage.average_le _ _ below _ targets
    rw [Retarget.gravityAverage]
    omega
  have product : Retarget.gravityAverage (Retarget.gravityBlocks chain) *
      Retarget.gravityMultiplier params (Retarget.gravityBlocks chain) ≤ 2 ^ 243 * 4320 :=
    Nat.mul_le_mul average (gravityMultiplier_lt params chain spacing)
  constructor
  · exact fun gravity_fits => gravity_fits.2.2
  · exact fun reached => ⟨fits, by omega, reached⟩

/-- The formula comes out unwrapped and non-zero exactly when its integers fit and reach. -/
theorem getNextWorkRequired_exact_iff (params : CChainParams)
    (network : params ∈ CChainParams.networks) (chain : CChain) :
    RetargetExact params chain ↔ Retarget.Fits params chain := by
  obtain ⟨spacing, limited⟩ := networks_spacing params network
  have limit_exact : getCompact params.bnProofOfWorkLimit =
      getCompact (BitVec.ofNat 256 params.bnProofOfWorkLimit.toNat) := by
    rw [BitVec.ofNat_toNat, BitVec.setWidth_eq]
  have limit_nonzero := getCompact_nonzero _ limited
  have parts : RetargetExact params chain ↔
      getNextWorkRequired params chain =
          getCompact (BitVec.ofNat 256 (Retarget.formula params chain)) ∧
        ProductsExact params chain ∧
        (setCompact (getNextWorkRequired params chain)).bnTarget ≠ 0 :=
    ⟨fun work => ⟨work.formula, work.products, work.nonZero⟩, fun ⟨a, b, c⟩ => ⟨a, b, c⟩⟩
  rw [parts]
  match chain with
  | [] => exact iff_of_true ⟨limit_exact, trivial, limit_nonzero⟩ trivial
  | [pindexLast] => exact iff_of_true ⟨limit_exact, trivial, limit_nonzero⟩ trivial
  | pindexLast :: pprev :: ancestors =>
    simp only [getNextWorkRequired, Retarget.formula, ProductsExact, Retarget.Fits]
    by_cases early : pindexLast.nHeight < pastBlocks
    · simp only [early, if_true]
      exact iff_of_true ⟨limit_exact, trivial, limit_nonzero⟩ trivial
    · by_cases staked : params.nLastPOWBlock < pindexLast.nHeight
      · simp only [early, staked, if_true, if_false]
        exact stake_exact_iff pindexLast pprev
      · simp only [early, staked, if_false]
        refine gravity_exact_iff params _ spacing limited ?_
        have positive : 0 < pindexLast.nHeight := by
          rw [pastBlocks] at early
          omega
        simp [Retarget.gravityBlocks, positive, pastBlocks]

def steadyChain (nBits : BitVec 32) : Nat → CChain
  | 0 => [⟨0, 0, 1, 1613150237, nBits, 0⟩]
  | height + 1 =>
      ⟨0, height + 1, 5, 1613150237 + 60 * (height + 1), nBits, 0⟩ :: steadyChain nBits height

theorem steadyChain_spec (nBits : BitVec 32) (height : Nat) (low : height ≤ 1000) :
    (steadyChain nBits height).Linked ∧ (steadyChain nBits height).length = height + 1 ∧
      ∀ pindex ∈ steadyChain nBits height, pindex.nBits = nBits ∧ pindex.nTime < 2 ^ 32 := by
  induction height with
  | zero => simp [steadyChain, CChain.Linked]
  | succ height ih =>
    obtain ⟨linked, length, fields⟩ := ih (by omega)
    refine ⟨⟨?_, linked⟩, ?_, ?_⟩
    · exact length.symm
    · rw [steadyChain, List.length_cons, length]
    · intro pindex member
      rcases List.mem_cons.mp member with rfl | older
      · exact ⟨rfl, by dsimp only; omega⟩
      · exact fields pindex older

theorem getNextWorkRequired_exact_main :
    RetargetExact CChainParams.mainParams (steadyChain 0x1e0fffff 30) :=
  (getNextWorkRequired_exact_iff CChainParams.mainParams List.mem_cons_self _).mpr (by
    have spaced : CChainParams.mainParams.nTargetSpacing = 60 := rfl
    refine (gravityFits_iff CChainParams.mainParams (steadyChain 0x1e0fffff 30) spaced
      (by decide +kernel) (by decide +kernel)).mpr (by decide +kernel))

def lateChain : CChain :=
  ⟨0, 201, 5, 1613150237 + 60 * 200 + 1047407, 0x1e080000, 0⟩ :: steadyChain 0x1e080000 200

-- The product of that gap and a target of 2^235 wraps, and the target falls instead of rising.
theorem getNextWorkRequired_wraps :
    CChain.Linked lateChain ∧
      (∀ pindex ∈ lateChain, pindex.nTime < 2 ^ 32 ∧
        (setCompact pindex.nBits).bnTarget ≤ CChainParams.mainParams.bnProofOfWorkLimit) ∧
      (setCompact (getNextWorkRequired CChainParams.mainParams lateChain)).bnTarget <
        (setCompact (getCompact (BitVec.ofNat 256
          (Retarget.formula CChainParams.mainParams lateChain)))).bnTarget ∧
      ¬ RetargetExact CChainParams.mainParams lateChain := by
  obtain ⟨linked, length, fields⟩ := steadyChain_spec 0x1e080000 200 (by decide)
  have falls : (setCompact (getNextWorkRequired CChainParams.mainParams lateChain)).bnTarget <
      (setCompact (getCompact (BitVec.ofNat 256
        (Retarget.formula CChainParams.mainParams lateChain)))).bnTarget := by
    decide +kernel
  have inside : (setCompact 0x1e080000).bnTarget ≤
      CChainParams.mainParams.bnProofOfWorkLimit := by
    decide +kernel
  refine ⟨⟨length.symm, linked⟩, ?_, falls, ?_⟩
  · intro pindex member
    rcases List.mem_cons.mp member with rfl | older
    · exact ⟨by decide, inside⟩
    · obtain ⟨bits, time⟩ := fields pindex older
      exact ⟨time, bits ▸ inside⟩
  · intro work
    rw [work.formula] at falls
    exact absurd falls (BitVec.lt_irrefl _)

end CryptoYen
