import CryptoYen.Consensus.Work
import CryptoYen.Library.Election
import CryptoYen.Masternodes.BlockHashes

set_option autoImplicit false

namespace CryptoYen

def MN_WINNER_MINIMUM_AGE : Int := 8000

def MASTERNODE_UNSPECIFIED : Nat := 0

def masternodeLevel (vin_val : Int) : Nat :=
  if vin_val = 80 * COIN then 1
  else if vin_val = 1000 * COIN then 2
  else if vin_val = 4000 * COIN then 3
  else if vin_val = 25000 * COIN then 4
  else MASTERNODE_UNSPECIFIED

structure CMasternode where
  vin : CTxIn
  protocolVersion : Int
  sigTime : Int
  deriving DecidableEq, Repr

structure CMasternodeMan where
  vMasternodes : List CMasternode
  distinct : (vMasternodes.map fun mn => mn.vin.prevout).Nodup

structure ElectionContext where
  getBlockHash : Int → Option Uint256
  nAdjustedTime : Int
  activeProtocol : Int
  deposit : CTxIn → Int
  -- IsEnabled after Check
  isEnabled : CMasternode → Bool
  isScheduled : CMasternode → Int → Bool
  getMasternodeInputAge : CMasternode → Int
  secondsSincePayment : CMasternode → Int

abbrev ScoredVin := Int × CTxIn

namespace CMasternodeMan

def find (man : CMasternodeMan) (vin : CTxIn) : Option CMasternode :=
  man.vMasternodes.find? fun mn => mn.vin.prevout == vin.prevout

def add (man : CMasternodeMan) (ctx : ElectionContext) (mn : CMasternode) : CMasternodeMan × Bool :=
  if ctx.isEnabled mn = false then (man, false)
  else
    match unknown : man.find mn.vin with
    | some _ => (man, false)
    | none =>
        ({ vMasternodes := man.vMasternodes ++ [mn]
           distinct := by
            simp only [find, List.find?_eq_none, beq_iff_eq] at unknown
            rw [List.map_append, List.nodup_append]
            refine ⟨man.distinct, by simp, ?_⟩
            intro out listed other single
            obtain ⟨known, member, rfl⟩ := List.mem_map.mp listed
            simp only [List.map_cons, List.map_nil, List.mem_singleton] at single
            rw [single]
            exact unknown known member }, true)

end CMasternodeMan

namespace ElectionContext

variable (ctx : ElectionContext)

def level (mn : CMasternode) : Nat := masternodeLevel (ctx.deposit mn.vin)

def calculateScore [ScoreHasher] (vin : CTxIn) (nBlockHeight : Int) : Uint256 :=
  match ctx.getBlockHash nBlockHeight with
  | none => 0
  | some hash => scoreOf hash vin.prevout

-- int64_t n2 = n.GetCompact(false)
def compactScore [ScoreHasher] (vin : CTxIn) (nBlockHeight : Int) : Int :=
  (getCompact (ctx.calculateScore vin nBlockHeight)).toNat

def countEnabled (man : CMasternodeMan) (mnlevel : Nat) : Nat :=
  man.vMasternodes.countP fun mn =>
    (mnlevel == MASTERNODE_UNSPECIFIED || ctx.level mn == mnlevel) &&
      decide (ctx.activeProtocol ≤ mn.protocolVersion) && ctx.isEnabled mn

def ranked (minProtocol : Int) (fOnlyActive : Bool) (mn : CMasternode) : Bool :=
  decide (minProtocol ≤ mn.protocolVersion) &&
    decide (MN_WINNER_MINIMUM_AGE ≤ ctx.nAdjustedTime - mn.sigTime) &&
    (!fOnlyActive || ctx.isEnabled mn)

def masternodeScores [ScoreHasher] (man : CMasternodeMan) (nBlockHeight minProtocol : Int)
    (fOnlyActive : Bool) : List ScoredVin :=
  (man.vMasternodes.filter (ctx.ranked minProtocol fOnlyActive)).map fun mn =>
    (ctx.compactScore mn.vin nBlockHeight, mn.vin)

/-- GetMasternodeRank; the sort compares the scores alone and is not stable. -/
def getMasternodeRank [ScoreHasher] (sort : List ScoredVin → List ScoredVin)
    (man : CMasternodeMan) (vin : CTxIn) (nBlockHeight minProtocol : Int) (fOnlyActive : Bool) :
    Int :=
  match ctx.getBlockHash nBlockHeight with
  | none => -1
  | some _ =>
      match (sort (ctx.masternodeScores man nBlockHeight minProtocol fOnlyActive)).findIdx?
          fun s => s.2.prevout == vin.prevout with
      | some index => index + 1
      | none => -1

def electable (mnlevel : Nat) (minProtocol : Int) (mn : CMasternode) : Bool :=
  (mnlevel == MASTERNODE_UNSPECIFIED || ctx.level mn == mnlevel) &&
    decide (minProtocol ≤ mn.protocolVersion) && ctx.isEnabled mn

-- The scan of GetCurrentMasterNode; only a score above the last winner's takes its place.
def scanWinner [ScoreHasher] (nBlockHeight : Int) :
    Int → Option CMasternode → List CMasternode → Option CMasternode
  | _, winner, [] => winner
  | score, winner, mn :: rest =>
      let n2 := ctx.compactScore mn.vin nBlockHeight
      if score < n2 then scanWinner nBlockHeight n2 (some mn) rest
      else scanWinner nBlockHeight score winner rest

def getCurrentMasterNode [ScoreHasher] (man : CMasternodeMan) (mnlevel : Nat)
    (nBlockHeight minProtocol : Int) : Option CMasternode :=
  ctx.scanWinner nBlockHeight 0 none (man.vMasternodes.filter (ctx.electable mnlevel minProtocol))

def queued (man : CMasternodeMan) (nBlockHeight : Int) (mnlevel : Nat) (fFilterSigTime : Bool)
    (mn : CMasternode) : Bool :=
  let nMnCount : Int := ctx.countEnabled man mnlevel
  ctx.isEnabled mn && ctx.level mn == mnlevel && decide (ctx.activeProtocol ≤ mn.protocolVersion) &&
    !ctx.isScheduled mn nBlockHeight &&
    !(fFilterSigTime && decide (ctx.nAdjustedTime < mn.sigTime + nMnCount * 156)) &&
    decide (nMnCount ≤ ctx.getMasternodeInputAge mn)

def masternodeLastPaid (man : CMasternodeMan) (nBlockHeight : Int) (mnlevel : Nat)
    (fFilterSigTime : Bool) : List ScoredVin :=
  (man.vMasternodes.filter (ctx.queued man nBlockHeight mnlevel fFilterSigTime)).map fun mn =>
    (ctx.secondsSincePayment mn, mn.vin)

-- The loop over the oldest tenth; it looks at one masternode at least.
def payOldest [ScoreHasher] (man : CMasternodeMan) (nBlockHeight : Int) (nTenthNetwork : Nat) :
    Nat → Uint256 → Option CMasternode → List ScoredVin → Option CMasternode
  | _, _, pBestMasternode, [] => pBestMasternode
  | nCountTenth, nHigh, pBestMasternode, s :: rest =>
      match man.find s.2 with
      | none => pBestMasternode
      | some pmn =>
          let n := ctx.calculateScore pmn.vin (nBlockHeight - 100)
          let high := if nHigh < n then n else nHigh
          let best := if nHigh < n then some pmn else pBestMasternode
          if nTenthNetwork ≤ nCountTenth + 1 then best
          else payOldest man nBlockHeight nTenthNetwork (nCountTenth + 1) high best rest

def payQueue [ScoreHasher] (sort : List ScoredVin → List ScoredVin) (man : CMasternodeMan)
    (nBlockHeight : Int) (mnlevel : Nat) (fFilterSigTime : Bool) : Option CMasternode :=
  ctx.payOldest man nBlockHeight (ctx.countEnabled man mnlevel / 10) 0 0 none
    (sort (ctx.masternodeLastPaid man nBlockHeight mnlevel fFilterSigTime))

-- When the network is in the process of upgrading, nodes that recently restarted count too.
def ignoresSigTime (man : CMasternodeMan) (nBlockHeight : Int) (mnlevel : Nat)
    (fFilterSigTime : Bool) : Bool :=
  fFilterSigTime && decide ((ctx.masternodeLastPaid man nBlockHeight mnlevel fFilterSigTime).length <
    ctx.countEnabled man mnlevel / 2)

/-- GetNextMasternodeInQueueForPayment: the masternode and nCount. -/
def getNextMasternodeInQueueForPayment [ScoreHasher] (sort : List ScoredVin → List ScoredVin)
    (man : CMasternodeMan) (nBlockHeight : Int) (mnlevel : Nat) (fFilterSigTime : Bool) :
    Option CMasternode × Nat :=
  let filters := fFilterSigTime && !ctx.ignoresSigTime man nBlockHeight mnlevel fFilterSigTime
  (ctx.payQueue sort man nBlockHeight mnlevel filters,
    (ctx.masternodeLastPaid man nBlockHeight mnlevel filters).length)

end ElectionContext

end CryptoYen
