import CryptoYen.Consensus.Chain
import CryptoYen.Consensus.Validation

set_option autoImplicit false

namespace CryptoYen

structure CompactTarget where
  bnTarget : Uint256
  fNegative : Bool
  fOverflow : Bool
  deriving DecidableEq, Repr

def setCompact (nCompact : BitVec 32) : CompactTarget :=
  let nSize := (nCompact >>> 24).toNat
  let nWord := nCompact &&& 0x007fffff
  let shifted := if nSize ≤ 3 then nWord >>> (8 * (3 - nSize)) else nWord
  { bnTarget :=
      if nSize ≤ 3 then shifted.setWidth 256 else nWord.setWidth 256 <<< (8 * (nSize - 3))
    fNegative := shifted != 0 && nCompact &&& 0x00800000 != 0
    fOverflow := shifted != 0 &&
      (34 < nSize || (0xff < shifted && 33 < nSize) || (0xffff < shifted && 32 < nSize)) }

def getCompact (bn : Uint256) : BitVec 32 :=
  let bits := if bn = 0 then 0 else Nat.log2 bn.toNat + 1
  let nSize := (bits + 7) / 8
  let nCompact : BitVec 32 :=
    if nSize ≤ 3 then (bn.setWidth 64 <<< (8 * (3 - nSize))).setWidth 32
    else (bn >>> (8 * (nSize - 3))).setWidth 32
  if nCompact &&& 0x00800000 = 0 then nCompact ||| (BitVec.ofNat 32 nSize <<< 24)
  else (nCompact >>> 8) ||| (BitVec.ofNat 32 (nSize + 1) <<< 24)

-- base_uint's product with an integer keeps the integer's low 32 bits.
def mulUint32 (bn : Uint256) (factor : Int) : Uint256 := bn * (BitVec.ofInt 32 factor).setWidth 256

def divUint64 (bn : Uint256) (divisor : Int) : Uint256 := bn / (BitVec.ofInt 64 divisor).setWidth 256

structure GravityWell where
  nActualTimespan : Int
  lastBlockTime : Int
  countBlocks : Nat
  pastDifficultyAverage : Uint256

namespace GravityWell

def start : GravityWell := ⟨0, 0, 0, 0⟩

def read (well : GravityWell) (blockReading : CBlockIndex) : GravityWell :=
  let bnTarget := (setCompact blockReading.nBits).bnTarget
  let countBlocks := well.countBlocks + 1
  { nActualTimespan :=
      if 0 < well.lastBlockTime then
        well.nActualTimespan + (well.lastBlockTime - blockReading.getBlockTime)
      else well.nActualTimespan
    lastBlockTime := blockReading.getBlockTime
    countBlocks := countBlocks
    pastDifficultyAverage :=
      if countBlocks = 1 then bnTarget
      else divUint64 (mulUint32 well.pastDifficultyAverage countBlocks + bnTarget)
        (countBlocks + 1) }

end GravityWell

def pastBlocks : Nat := 24

def darkGravityWork (params : CChainParams) (chain : CChain) : BitVec 32 :=
  let blocks := (chain.takeWhile fun pindex => 0 < pindex.nHeight).take pastBlocks
  let well := blocks.foldl GravityWell.read GravityWell.start
  let nTargetTimespan := well.countBlocks * params.nTargetSpacing
  let nActualTimespan :=
    if well.nActualTimespan < nTargetTimespan.tdiv 3 then nTargetTimespan.tdiv 3
    else if nTargetTimespan * 3 < well.nActualTimespan then nTargetTimespan * 3
    else well.nActualTimespan
  let bnNew := divUint64 (mulUint32 well.pastDifficultyAverage nActualTimespan) nTargetTimespan
  getCompact (if params.bnProofOfWorkLimit < bnNew then params.bnProofOfWorkLimit else bnNew)

def proofOfStakeLimit : Uint256 := ~~~(0 : Uint256) >>> 24

def proofOfStakeWork (pindexLast pprev : CBlockIndex) : BitVec 32 :=
  let nTargetSpacing : Int := 60
  let nInterval : Int := 40
  let nSpacing := pindexLast.getBlockTime - pprev.getBlockTime
  let nActualSpacing := if nSpacing < 0 then 1 else nSpacing
  let bnNew := divUint64
    (mulUint32 (setCompact pindexLast.nBits).bnTarget
      ((nInterval - 1) * nTargetSpacing + nActualSpacing + nActualSpacing))
    ((nInterval + 1) * nTargetSpacing)
  getCompact (if bnNew = 0 ∨ proofOfStakeLimit < bnNew then proofOfStakeLimit else bnNew)

-- The proof type is read off the height alone.
def getNextWorkRequired (params : CChainParams) : CChain → BitVec 32
  | pindexLast :: pprev :: ancestors =>
      if pindexLast.nHeight < pastBlocks then getCompact params.bnProofOfWorkLimit
      else if params.nLastPOWBlock < pindexLast.nHeight then proofOfStakeWork pindexLast pprev
      else darkGravityWork params (pindexLast :: pprev :: ancestors)
  | _ => getCompact params.bnProofOfWorkLimit

def checkWork (params : CChainParams) (block : CBlockHeader) (pindexPrev : CChain) : Check :=
  match pindexPrev with
  | [] => .error .rejected
  | _ => require (block.nBits == getNextWorkRequired params pindexPrev) .rejected

def targetInRange (params : CChainParams) (nBits : BitVec 32) : Bool :=
  let compact := setCompact nBits
  !compact.fNegative && compact.bnTarget != 0 && !compact.fOverflow &&
    compact.bnTarget ≤ params.bnProofOfWorkLimit

def checkProofOfWork (params : CChainParams) (hash : Uint256) (nBits : BitVec 32) : Bool :=
  if params.fSkipProofOfWorkCheck then true
  else if !targetInRange params nBits then false
  else if (setCompact nBits).bnTarget < hash then !params.fMineBlocksOnDemand
  else true

def checkBlockHeader [BlockHasher] (params : CChainParams) (block : CBlockHeader)
    (fCheckPOW : Bool) : Check :=
  require (!fCheckPOW || checkProofOfWork params block.getHash block.nBits)
    (.dos 50 REJECT_INVALID "high-hash")

structure MeetsTarget (params : CChainParams) (hash : Uint256) (nBits : BitVec 32) : Prop where
  nonNegative : (setCompact nBits).fNegative = false
  nonZero : (setCompact nBits).bnTarget ≠ 0
  noOverflow : (setCompact nBits).fOverflow = false
  withinLimit : (setCompact nBits).bnTarget ≤ params.bnProofOfWorkLimit
  hashBound : hash ≤ (setCompact nBits).bnTarget

theorem targetInRange_iff (params : CChainParams) (nBits : BitVec 32) :
    targetInRange params nBits = true ↔
      (setCompact nBits).fNegative = false ∧ (setCompact nBits).bnTarget ≠ 0 ∧
        (setCompact nBits).fOverflow = false ∧
        (setCompact nBits).bnTarget ≤ params.bnProofOfWorkLimit := by
  simp [targetInRange, and_assoc]

theorem meetsTarget_iff (params : CChainParams) (hash : Uint256) (nBits : BitVec 32) :
    MeetsTarget params hash nBits ↔
      targetInRange params nBits = true ∧ hash ≤ (setCompact nBits).bnTarget := by
  rw [targetInRange_iff]
  constructor
  · rintro ⟨nonNegative, nonZero, noOverflow, withinLimit, hashBound⟩
    exact ⟨⟨nonNegative, nonZero, noOverflow, withinLimit⟩, hashBound⟩
  · rintro ⟨⟨nonNegative, nonZero, noOverflow, withinLimit⟩, hashBound⟩
    exact ⟨nonNegative, nonZero, noOverflow, withinLimit, hashBound⟩

-- The branch that gives up on the hash: it is above the target and nothing rejects it.
def HashIgnored (params : CChainParams) (hash : Uint256) (nBits : BitVec 32) : Prop :=
  params.fMineBlocksOnDemand = false ∧ targetInRange params nBits = true ∧
    (setCompact nBits).bnTarget < hash

theorem checkProofOfWork_accepts (params : CChainParams) (hash : Uint256) (nBits : BitVec 32)
    (checked : params.fSkipProofOfWorkCheck = false) :
    checkProofOfWork params hash nBits = true ↔
      MeetsTarget params hash nBits ∨ HashIgnored params hash nBits := by
  rw [meetsTarget_iff]
  unfold checkProofOfWork HashIgnored
  by_cases range : targetInRange params nBits = true
  · by_cases above : (setCompact nBits).bnTarget < hash
    · have notBelow : ¬ hash ≤ (setCompact nBits).bnTarget := by
        simpa using above
      simp [checked, range, above, notBelow]
    · have below : hash ≤ (setCompact nBits).bnTarget := by
        simpa using above
      simp [checked, range, above, below]
  · simp [checked, range]

theorem checkProofOfWork_sound (params : CChainParams) (hash : Uint256) (nBits : BitVec 32)
    (checked : params.fSkipProofOfWorkCheck = false) :
    (checkProofOfWork params hash nBits = true → MeetsTarget params hash nBits) ↔
      ¬ HashIgnored params hash nBits := by
  rw [checkProofOfWork_accepts params hash nBits checked]
  constructor
  · intro sound ignored
    have above := ignored.2.2
    have below := (sound (.inr ignored)).hashBound
    exact BitVec.not_le.mpr above below
  · rintro notIgnored (meets | ignored)
    · exact meets
    · exact absurd ignored notIgnored

theorem checkBlockHeader_ok [BlockHasher] (params : CChainParams) (block : CBlockHeader) :
    checkBlockHeader params block true = .ok () ↔
      checkProofOfWork params block.getHash block.nBits = true := by
  simp [checkBlockHeader]

theorem smallest_target : setCompact 0x01010000 = ⟨1, false, false⟩ := by
  decide

theorem hashIgnored_exists (params : CChainParams)
    (notOnDemand : params.fMineBlocksOnDemand = false)
    (positive : params.bnProofOfWorkLimit ≠ 0) :
    HashIgnored params 2 0x01010000 := by
  refine ⟨notOnDemand, ?_, by rw [smallest_target]; decide⟩
  have bound : (1 : Uint256) ≤ params.bnProofOfWorkLimit := by
    bv_omega
  rw [targetInRange_iff, smallest_target]
  exact ⟨rfl, by decide, rfl, bound⟩

-- A network bounds the hash only when it mines on demand or has no target at all.
theorem proofOfWork_sound_iff (params : CChainParams)
    (checked : params.fSkipProofOfWorkCheck = false) :
    (∀ hash nBits,
      (checkProofOfWork params hash nBits = true → MeetsTarget params hash nBits) ↔
        ¬ HashIgnored params hash nBits) ∧
    (∀ (_ : BlockHasher) (block : CBlockHeader),
      (checkBlockHeader params block true = .ok () →
        MeetsTarget params block.getHash block.nBits) ↔
          ¬ HashIgnored params block.getHash block.nBits) ∧
    ((∀ hash nBits, checkProofOfWork params hash nBits = true →
        MeetsTarget params hash nBits) ↔
      params.fMineBlocksOnDemand = true ∨ params.bnProofOfWorkLimit = 0) := by
  refine ⟨fun hash nBits => checkProofOfWork_sound params hash nBits checked, ?_, ?_⟩
  · intro hasher block
    rw [checkBlockHeader_ok]
    exact checkProofOfWork_sound params block.getHash block.nBits checked
  · constructor
    · intro sound
      by_cases onDemand : params.fMineBlocksOnDemand = true
      · exact .inl onDemand
      · refine .inr (by_contra fun positive => ?_)
        have ignored := hashIgnored_exists params (by simpa using onDemand) positive
        exact (checkProofOfWork_sound params 2 0x01010000 checked).mp (sound 2 0x01010000) ignored
    · intro harmless hash nBits
      refine (checkProofOfWork_sound params hash nBits checked).mpr ?_
      rintro ⟨notOnDemand, range, above⟩
      rcases harmless with onDemand | noTarget
      · simp [onDemand] at notOnDemand
      · obtain ⟨_, nonZero, _, withinLimit⟩ := (targetInRange_iff params nBits).mp range
        rw [noTarget] at withinLimit
        exact nonZero (BitVec.le_zero_iff.mp withinLimit)

theorem proofOfWork_sound_iff_main :
    ¬ HashIgnored CChainParams.mainParams 0 0x1e0fffff ∧
      (checkProofOfWork CChainParams.mainParams 0 0x1e0fffff = true →
        MeetsTarget CChainParams.mainParams 0 0x1e0fffff) := by
  have harmless : ¬ HashIgnored CChainParams.mainParams 0 0x1e0fffff := by
    rintro ⟨_, _, above⟩
    exact absurd above (by decide)
  exact ⟨harmless, ((proofOfWork_sound_iff CChainParams.mainParams rfl).1 0 0x1e0fffff).mpr
    harmless⟩

theorem proofOfWork_ignored_on_main :
    ¬ (checkProofOfWork CChainParams.mainParams (~~~0) 0x1e0fffff = true →
      MeetsTarget CChainParams.mainParams (~~~0) 0x1e0fffff) := by
  intro sound
  have accepted : checkProofOfWork CChainParams.mainParams (~~~0) 0x1e0fffff = true := by
    decide
  exact absurd (sound accepted).hashBound (by decide)

end CryptoYen
