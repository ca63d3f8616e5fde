import CryptoYen.Consensus.Chain

set_option autoImplicit false

namespace CryptoYen

structure ChainBlock extends CBlockIndex where
  fProofOfStake : Bool
  deriving DecidableEq, Repr

structure StakeIndex extends ChainBlock where
  nStakeModifier : BitVec 64
  fGeneratedStakeModifier : Bool
  deriving DecidableEq, Repr

-- The newest entry is in front.
abbrev StakeChain := List StakeIndex

class SelectionHasher where
  hash : Uint256 → BitVec 64 → Uint256

def MODIFIER_INTERVAL : Nat := 60
def MODIFIER_INTERVAL_RATIO : Nat := 3

-- fTestNet is never set.
def getIntervalVersion : Nat := MODIFIER_INTERVAL

def CChainParams.modifierUpgradeBlock (params : CChainParams) : Nat :=
  match params.networkID with
  | .main => 1999999999
  | .unittest => 1999999999
  | .testnet => 51197
  | .regtest => 51197

def CBlockIndex.getStakeEntropyBit (pindex : CBlockIndex) : BitVec 64 :=
  pindex.phashBlock.setWidth 64 &&& 1

def getStakeModifierSelectionIntervalSection (nSection : Nat) : Nat :=
  getIntervalVersion * 63 / (63 + (63 - nSection) * ( MODIFIER_INTERVAL_RATIO - 1))

def getStakeModifierSelectionInterval : Nat :=
  ((List.range 64).map getStakeModifierSelectionIntervalSection).sum

/-- What a process brings to the computation besides the chain: where it holds the string literal
"stakemodifier", and the entries of mapBlockIndex off the chain. -/
structure ModifierProcess where
  stakemodifier : BitVec 64
  sideBlocks : List StakeIndex

abbrev Candidate := Int × Uint256

def candidateLe (a b : Candidate) : Bool := a.1 < b.1 || (a.1 == b.1 && a.2 ≤ b.2)

section Selection

variable [SelectionHasher] (mapBlockIndex : Uint256 → Option StakeIndex)

-- A proof-of-stake block is favoured: its hash is shifted down.
def selectionHash (fModifierV2 : Bool) (nStakeModifierPrev : BitVec 64) (pindex : StakeIndex) :
    Uint256 :=
  let hashProof := if fModifierV2 || !pindex.fProofOfStake then pindex.phashBlock else 0
  let hashSelection := SelectionHasher.hash hashProof nStakeModifierPrev
  if pindex.fProofOfStake then hashSelection >>> 32 else hashSelection

def betterSelection (best : Option (Uint256 × StakeIndex)) (hashSelection : Uint256)
    (pindex : StakeIndex) : Option (Uint256 × StakeIndex) :=
  match best with
  | none => some (hashSelection, pindex)
  | some (hashBest, pindexSelected) =>
      if hashSelection < hashBest then some (hashSelection, pindex)
      else some (hashBest, pindexSelected)

-- none is the error of a candidate without an index entry.
def selectFrom (fModifierV2 : Bool) (mapSelectedBlocks : List Uint256)
    (nSelectionIntervalStop : Int) (nStakeModifierPrev : BitVec 64) :
    List Candidate → Option (Uint256 × StakeIndex) → Option (Option (Uint256 × StakeIndex))
  | [], best => some best
  | item :: rest, best =>
      match mapBlockIndex item.2 with
      | none => none
      | some pindex =>
          if best.isSome && nSelectionIntervalStop < pindex.getBlockTime then some best
          else if mapSelectedBlocks.contains pindex.phashBlock then
            selectFrom fModifierV2 mapSelectedBlocks nSelectionIntervalStop nStakeModifierPrev rest best
          else
            selectFrom fModifierV2 mapSelectedBlocks nSelectionIntervalStop nStakeModifierPrev rest
              (betterSelection best (selectionHash fModifierV2 nStakeModifierPrev pindex) pindex)

def usesModifierV2 (params : CChainParams) (vSortedByTimestamp : List Candidate) : Bool :=
  match vSortedByTimestamp with
  | [] => false
  | item :: _ =>
      match mapBlockIndex item.2 with
      | none => false
      | some pindex => params.modifierUpgradeBlock ≤ pindex.nHeight

def selectBlockFromCandidates (params : CChainParams) (vSortedByTimestamp : List Candidate)
    (mapSelectedBlocks : List Uint256) (nSelectionIntervalStop : Int)
    (nStakeModifierPrev : BitVec 64) : Option StakeIndex :=
  ((selectFrom mapBlockIndex (usesModifierV2 mapBlockIndex params vSortedByTimestamp)
    mapSelectedBlocks nSelectionIntervalStop nStakeModifierPrev vSortedByTimestamp none).join).map
    Prod.snd

def selectRounds (params : CChainParams) (vSortedByTimestamp : List Candidate)
    (nStakeModifierPrev : BitVec 64) :
    Nat → Nat → Int → List Uint256 → BitVec 64 → Option (BitVec 64)
  | 0, _, _, _, nStakeModifierNew => some nStakeModifierNew
  | rounds + 1, nRound, nSelectionIntervalStop, mapSelectedBlocks, nStakeModifierNew =>
      let stop := nSelectionIntervalStop + getStakeModifierSelectionIntervalSection nRound
      match selectBlockFromCandidates mapBlockIndex params vSortedByTimestamp mapSelectedBlocks stop
        nStakeModifierPrev with
      | none => none
      | some pindex =>
          selectRounds params vSortedByTimestamp nStakeModifierPrev rounds (nRound + 1) stop
            (pindex.phashBlock :: mapSelectedBlocks)
            (nStakeModifierNew ||| (pindex.getStakeEntropyBit <<< nRound))

end Selection

namespace StakeChain

variable (chain : StakeChain)

def getLastStakeModifier : Option (BitVec 64 × Int) :=
  (chain.find? StakeIndex.fGeneratedStakeModifier).map fun pindex =>
    (pindex.nStakeModifier, pindex.getBlockTime)

def selectionIntervalStart (pindexPrev : StakeIndex) : Int :=
  pindexPrev.getBlockTime / getIntervalVersion * getIntervalVersion -
    getStakeModifierSelectionInterval

def sortedByTimestamp (nSelectionIntervalStart : Int) : List Candidate :=
  (((chain.takeWhile fun pindex => nSelectionIntervalStart ≤ pindex.getBlockTime).map fun pindex =>
    (pindex.getBlockTime, pindex.phashBlock)).reverse).insertionSort fun a b => candidateLe a b

end StakeChain

def ModifierProcess.mapBlockIndex (process : ModifierProcess) (chain : StakeChain)
    (hash : Uint256) : Option StakeIndex :=
  (chain ++ process.sideBlocks).find? fun pindex => pindex.phashBlock == hash

def computeNewModifier [SelectionHasher] (process : ModifierProcess) (params : CChainParams)
    (chain : StakeChain) (pindexPrev : StakeIndex) (nStakeModifier : BitVec 64) :
    Option (BitVec 64) :=
  let nSelectionIntervalStart := StakeChain.selectionIntervalStart pindexPrev
  let vSortedByTimestamp := StakeChain.sortedByTimestamp chain nSelectionIntervalStart
  selectRounds (process.mapBlockIndex chain) params vSortedByTimestamp nStakeModifier
    (min 64 vSortedByTimestamp.length) 0 nSelectionIntervalStart [] 0

/-- ComputeNextStakeModifier on the chain of pindexPrev: whether it succeeds, nStakeModifier and
fGeneratedStakeModifier. The first block's modifier is the address of a string literal. -/
def computeNextStakeModifier [SelectionHasher] (process : ModifierProcess) (params : CChainParams)
    (chain : StakeChain) : Bool × BitVec 64 × Bool :=
  match chain with
  | [] => (true, 0, true)
  | pindexPrev :: _ =>
      if pindexPrev.nHeight = 0 then (true, process.stakemodifier, true)
      else
        match StakeChain.getLastStakeModifier chain with
        | none => (false, 0, false)
        | some (nStakeModifier, nModifierTime) =>
            if pindexPrev.getBlockTime / getIntervalVersion ≤ nModifierTime / getIntervalVersion then
              (true, nStakeModifier, false)
            else
              match computeNewModifier process params chain pindexPrev nStakeModifier with
              | none => (false, nStakeModifier, false)
              | some nStakeModifierNew => (true, nStakeModifierNew, true)

/-- AddToBlockIndex stores what ComputeNextStakeModifier leaves, even when that fails; a block
without a known parent keeps the default. -/
def addStakeIndex [SelectionHasher] (process : ModifierProcess) (params : CChainParams)
    (block : ChainBlock) (chain : StakeChain) : StakeIndex :=
  match chain with
  | [] => ⟨{ block with nHeight := 0 }, 0, false⟩
  | pprev :: _ =>
      let result := computeNextStakeModifier process params chain
      ⟨{ block with nHeight := pprev.nHeight + 1 }, result.2.1, result.2.2⟩

def indexBlocks [SelectionHasher] (process : ModifierProcess) (params : CChainParams) :
    List ChainBlock → StakeChain
  | [] => []
  | block :: older =>
      addStakeIndex process params block (indexBlocks process params older) ::
        indexBlocks process params older

end CryptoYen
