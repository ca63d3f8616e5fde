import CryptoYen.Library.Search
import CryptoYen.Staking.StakeRules

set_option autoImplicit false

namespace CryptoYen

/-- A call of Stake: the node, the arguments and the height of the active chain, first when the
call starts and then whenever the loop reads it. -/
structure StakeCall where
  ctx : KernelContext
  stakeInput : CCryptoYenStake
  nBits : BitVec 32
  nTimeBlockFrom : Nat
  nTimeTx : Nat
  nHeightStart : Int
  heights : Nat → Int

namespace StakeCall

variable (call : StakeCall)

-- The test of the minimum age, with its 32-bit sum.
def agedAt (nTimeTx : Nat) : Bool :=
  call.ctx.params.networkID = .regtest || !(nTimeTx < (call.nTimeBlockFrom + nStakeMinAge) % 2 ^ 32)

def nTryTime (i : Nat) : Nat := (call.nTimeTx + nHashDrift / 2 + 2 ^ 32 - i) % 2 ^ 32

def sameTip (i : Nat) : Bool := call.heights i == call.nHeightStart

theorem agedAt_false (nTimeTx : Nat) :
    call.agedAt nTimeTx = false ↔
      call.ctx.params.networkID ≠ .regtest ∧
        nTimeTx < (call.nTimeBlockFrom + nStakeMinAge) % 2 ^ 32 := by
  simp [agedAt]

variable [TxHasher] [KernelHasher]

omit [KernelHasher] in
def start : Option (BitVec 64) :=
  if call.ctx.params.networkID ≠ .regtest ∧ call.nTimeTx < call.nTimeBlockFrom then none
  else if !call.agedAt call.nTimeTx then none
  else
    match call.stakeInput.getModifier call.ctx with
    | none => none
    | some nStakeModifier =>
        if call.stakeInput.getValue < COIN / 100 then none else some nStakeModifier

def check (nStakeModifier : BitVec 64) (nTimeTx : Nat) : Bool × Uint256 :=
  checkStake call.stakeInput.getUniqueness call.stakeInput.getValue nStakeModifier
    (setCompact call.nBits).bnTarget call.nTimeBlockFrom nTimeTx

def attempt (nStakeModifier : BitVec 64) (i : Nat) : Option (Nat × Uint256) :=
  let (hit, hashProofOfStake) := call.check nStakeModifier (call.nTryTime i)
  if hit then some (call.nTryTime i, hashProofOfStake) else none

/-- Stake with its loop, which a new tip ends. -/
def run : Option (Nat × Uint256) :=
  call.start.bind fun nStakeModifier =>
    Search.scan call.sameTip (call.attempt nStakeModifier) nHashDrift 0

theorem attempt_some (nStakeModifier : BitVec 64) (i : Nat) (found : Nat × Uint256) :
    call.attempt nStakeModifier i = some found ↔
      call.check nStakeModifier (call.nTryTime i) = (true, found.2) ∧ call.nTryTime i = found.1 := by
  obtain ⟨nTimeTx, hashProofOfStake⟩ := found
  unfold attempt
  rcases call.check nStakeModifier (call.nTryTime i) with ⟨hit, hash⟩
  cases hit with
  | false => simp
  | true => simp [and_comm]

theorem run_sameTip (still : ∀ i, call.heights i = call.nHeightStart) :
    call.run = stake call.ctx call.stakeInput call.nBits call.nTimeBlockFrom call.nTimeTx := by
  have always : ∀ i, call.sameTip i = true := fun i => by simp [sameTip, still i]
  unfold run start stake
  simp only [Search.scan_always _ _ always, Bool.not_eq_eq_eq_not, Bool.not_true, agedAt_false]
  split
  next => rfl
  next =>
    split
    next => rfl
    next =>
      cases call.stakeInput.getModifier call.ctx with
      | none => rfl
      | some nStakeModifier =>
          by_cases small : call.stakeInput.getValue < COIN / 100
          · simp only [small, ↓reduceIte, Option.bind_none]
          · simp only [small, ↓reduceIte, Option.bind_some, List.range_eq_range']
            rfl

omit [KernelHasher] in
theorem start_rules (nStakeModifier : BitVec 64) (started : call.start = some nStakeModifier) :
    call.stakeInput.getModifier call.ctx = some nStakeModifier ∧
      call.agedAt call.nTimeTx = true ∧ COIN / 100 ≤ call.stakeInput.getValue := by
  unfold start at started
  split at started
  next => cases started
  next =>
    split at started
    next => cases started
    next aged =>
      split at started
      next => cases started
      next modifier found =>
        split at started
        next => cases started
        next valued =>
          cases started
          exact ⟨found, by simpa using aged, Int.not_lt.mp valued⟩

structure Agrees (nTimeTx : Nat) (hashProofOfStake : Uint256) : Prop where
  recomputed : ∃ nStakeModifier, call.stakeInput.getModifier call.ctx = some nStakeModifier ∧
    call.check nStakeModifier nTimeTx = (true, hashProofOfStake)
  aged : call.agedAt nTimeTx = true

def StakerAgrees : Prop :=
  ∀ found, call.run = some found → call.Agrees found.1 found.2

def Hits (nStakeModifier : BitVec 64) (i : Nat) : Prop :=
  (call.check nStakeModifier (call.nTryTime i)).1 = true

-- Each attempt that is reached and hits below the minimum age comes after a hit that is old enough.
def YoungHitsCovered : Prop :=
  ∀ nStakeModifier, call.start = some nStakeModifier →
    ∀ i, Search.Reached call.sameTip nHashDrift i → call.Hits nStakeModifier i →
      call.agedAt (call.nTryTime i) = false →
      ∃ j < i, call.Hits nStakeModifier j ∧ call.agedAt (call.nTryTime j) = true

theorem attempt_of_hits (nStakeModifier : BitVec 64) (i : Nat) (hits : call.Hits nStakeModifier i) :
    ∃ hashProofOfStake, call.attempt nStakeModifier i = some (call.nTryTime i, hashProofOfStake) :=
  ⟨_, (call.attempt_some nStakeModifier i _).mpr ⟨Prod.ext hits rfl, rfl⟩⟩

theorem attempt_recomputed (nStakeModifier : BitVec 64) (i : Nat) (found : Nat × Uint256)
    (hit : call.attempt nStakeModifier i = some found) :
    call.Hits nStakeModifier i ∧ call.nTryTime i = found.1 ∧
      call.check nStakeModifier found.1 = (true, found.2) := by
  obtain ⟨checked, time⟩ := (call.attempt_some nStakeModifier i found).mp hit
  refine ⟨?_, time, time ▸ checked⟩
  rw [Hits, checked]

theorem scan_aged_iff (nStakeModifier : BitVec 64) :
    (∀ found, Search.scan call.sameTip (call.attempt nStakeModifier) nHashDrift 0 = some found →
        call.agedAt found.1 = true) ↔
      ∀ i, Search.Reached call.sameTip nHashDrift i → call.Hits nStakeModifier i →
        call.agedAt (call.nTryTime i) = false →
        ∃ j < i, call.Hits nStakeModifier j ∧ call.agedAt (call.nTryTime j) = true := by
  rw [Search.scan_passes_iff nHashDrift fun found : Nat × Uint256 => call.agedAt found.1 = true]
  constructor
  · intro covered i reached hits young
    obtain ⟨hashProofOfStake, hit⟩ := call.attempt_of_hits nStakeModifier i hits
    obtain ⟨j, lt, earlier, sooner, aged⟩ := covered i _ reached hit (by simp [young])
    obtain ⟨hitsSooner, time, _⟩ := call.attempt_recomputed nStakeModifier j earlier sooner
    exact ⟨j, lt, hitsSooner, time ▸ aged⟩
  · intro covered i found reached hit young
    obtain ⟨hits, time, _⟩ := call.attempt_recomputed nStakeModifier i found hit
    rw [Bool.not_eq_true, ← time] at young
    obtain ⟨j, lt, hitsSooner, aged⟩ := covered i reached hits young
    obtain ⟨hashProofOfStake, sooner⟩ := call.attempt_of_hits nStakeModifier j hitsSooner
    exact ⟨j, lt, _, sooner, aged⟩

/-- Staker and verifier agree exactly when no attempt below the minimum age is the first to hit. -/
theorem stakerAgrees_iff : call.StakerAgrees ↔ call.YoungHitsCovered := by
  unfold StakerAgrees YoungHitsCovered run
  cases started : call.start with
  | none => simp
  | some nStakeModifier =>
      simp only [Option.bind_some, Option.some.injEq, forall_eq', ← scan_aged_iff]
      constructor
      · intro agrees found scanned
        exact (agrees found scanned).aged
      · intro aged found scanned
        obtain ⟨i, first⟩ := Search.scan_firstHit _ _ _ scanned
        obtain ⟨_, _, checked⟩ := call.attempt_recomputed nStakeModifier i found first.hit
        exact ⟨⟨nStakeModifier, (call.start_rules nStakeModifier started).1, checked⟩,
          aged found scanned⟩

theorem youngHitsCovered_late (late : call.nTimeBlockFrom + nStakeMinAge + 149 ≤ call.nTimeTx)
    (bound : call.nTimeTx + nHashDrift / 2 < 2 ^ 32) : call.YoungHitsCovered := by
  intro nStakeModifier _ i reached _ young
  have last : i < nHashDrift := reached.1
  have below := ((call.agedAt_false _).mp young).2
  simp only [nTryTime, nHashDrift, nStakeMinAge] at *
  omega

theorem run_accepted (ctx : ProofContext) (block : CBlock) (kernel : StakedKernel)
    (hashProofOfStake : Uint256) (same : ctx.toKernelContext = call.ctx)
    (resolved : stakedKernel ctx block = .ok kernel) (staked : kernel.stake = call.stakeInput)
    (created : kernel.blockprev.nTime = call.nTimeBlockFrom) (bits : block.nBits = call.nBits)
    (ran : call.run = some (block.nTime, hashProofOfStake)) :
    checkProofOfStake ctx block = .ok hashProofOfStake := by
  have modifier := stakedKernel_modifier ctx block kernel resolved
  rw [same, staked] at modifier
  obtain ⟨nStakeModifier, started, scanned⟩ := Option.bind_eq_some_iff.mp ran
  obtain ⟨i, first⟩ := Search.scan_firstHit _ _ _ scanned
  obtain ⟨_, _, checked⟩ := call.attempt_recomputed nStakeModifier i _ first.hit
  have again := (call.start_rules nStakeModifier started).1
  rw [modifier] at again
  cases again
  rw [checkProofOfStake_ok_iff]
  refine ⟨kernel, resolved, ?_, ?_⟩
  · have hit := congrArg Prod.fst checked
    rwa [check, ← staked, ← bits, ← created] at hit
  · have hash := congrArg Prod.snd checked
    rwa [check, ← staked, ← bits, ← created] at hash

end StakeCall

def agedCoin : CTransaction := ⟨1, [⟨⟨5, 0⟩, [], 0xffffffff⟩], [⟨200000000, [0x51]⟩], 0⟩

def agedCall : StakeCall where
  ctx := hourlyContext.kernel fun hash => if hash = 200000000 then some (agedCoin, 11) else none
  stakeInput := ⟨agedCoin, 0, by decide⟩
  nBits := 0x1e0ffff0
  nTimeBlockFrom := 1700003600
  nTimeTx := 1700007200
  nHeightStart := 3
  heights := fun _ => 3

@[reducible] def onceKernelHasher : KernelHasher :=
  ⟨fun _ _ _ nTimeTx => if nTimeTx = 1700007199 then 0 else ~~~0⟩

-- The first hit lies a second before the start, where the coins are still too young.
theorem agedCall_disagrees : ¬ @StakeCall.StakerAgrees agedCall outputHasher onceKernelHasher := by
  intro agrees
  obtain ⟨_, young⟩ := agrees (1700007199, 0) (by decide +kernel)
  revert young
  decide +kernel

end CryptoYen
