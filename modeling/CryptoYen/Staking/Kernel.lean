import CryptoYen.Consensus.Work

set_option autoImplicit false

namespace CryptoYen

/-- A coin offered as a kernel. SetInput only ever points it at an existing output. -/
structure CCryptoYenStake where
  txFrom : CTransaction
  nPosition : Nat
  inRange : nPosition < txFrom.vout.length

structure KernelContext where
  params : CChainParams
  chainActive : CChain
  getTransaction : Uint256 → Option (CTransaction × Uint256)
  getKernelStakeModifier : Uint256 → Option (BitVec 64)

/-- Hash of the modifier, the kernel's block time, its uniqueness (position and txid) and the try
time, which are streamed in this order. -/
class KernelHasher where
  hash : BitVec 64 → Nat → Nat × Uint256 → Nat → Uint256

def nStakeMinAge : Nat := 60 * 60
def nHashDrift : Nat := 300

namespace CCryptoYenStake

variable (stake : CCryptoYenStake)

def prevTxOut : CTxOut := stake.txFrom.vout.get ⟨stake.nPosition, stake.inRange⟩

def getValue : Int := stake.prevTxOut.nValue

def createTxIn [TxHasher] : CTxIn := ⟨⟨stake.txFrom.getHash, stake.nPosition⟩, [], 0xffffffff⟩

def getUniqueness [TxHasher] : Nat × Uint256 := (stake.nPosition, stake.txFrom.getHash)

-- Only a block of the active chain becomes pindexFrom.
def getIndexFrom [TxHasher] (ctx : KernelContext) : Option CBlockIndex :=
  match ctx.getTransaction stake.txFrom.getHash with
  | none => none
  | some (_, hashBlock) => ctx.chainActive.find? fun pindex => pindex.phashBlock == hashBlock

def getModifier [TxHasher] (ctx : KernelContext) : Option (BitVec 64) :=
  match stake.getIndexFrom ctx with
  | none => none
  | some pindexFrom => ctx.getKernelStakeModifier pindexFrom.phashBlock

end CCryptoYenStake

def stakeTargetHit (hashProofOfStake : Uint256) (nValueIn : Int) (bnTargetPerCoinDay : Uint256) :
    Bool :=
  let bnCoinDayWeight := (BitVec.ofInt 64 nValueIn).setWidth 256 / 100
  hashProofOfStake < bnCoinDayWeight * bnTargetPerCoinDay

def checkStake [KernelHasher] (ssUniqueID : Nat × Uint256) (nValueIn : Int)
    (nStakeModifier : BitVec 64) (bnTarget : Uint256) (nTimeBlockFrom nTimeTx : Nat) :
    Bool × Uint256 :=
  let hashProofOfStake := KernelHasher.hash nStakeModifier nTimeBlockFrom ssUniqueID nTimeTx
  (stakeTargetHit hashProofOfStake nValueIn bnTarget, hashProofOfStake)

/-- The search of Stake: the new transaction time and the proof hash of the first hit. Times are
unsigned 32-bit numbers. -/
def stake [TxHasher] [KernelHasher] (ctx : KernelContext) (stakeInput : CCryptoYenStake)
    (nBits : BitVec 32) (nTimeBlockFrom nTimeTx : Nat) : Option (Nat × Uint256) :=
  if ctx.params.networkID ≠ .regtest ∧ nTimeTx < nTimeBlockFrom then none
  else if ctx.params.networkID ≠ .regtest ∧ nTimeTx < (nTimeBlockFrom + nStakeMinAge) % 2 ^ 32 then
    none
  else
    match stakeInput.getModifier ctx with
    | none => none
    | some nStakeModifier =>
        if stakeInput.getValue < COIN / 100 then none
        else
          (List.range nHashDrift).findSome? fun i =>
            let nTryTime := (nTimeTx + nHashDrift / 2 + 2 ^ 32 - i) % 2 ^ 32
            let (hit, hashProofOfStake) :=
              checkStake stakeInput.getUniqueness stakeInput.getValue nStakeModifier
                (setCompact nBits).bnTarget nTimeBlockFrom nTryTime
            if hit then some (nTryTime, hashProofOfStake) else none

namespace CChain

theorem Linked.height_le {chain : CChain} (linked : chain.Linked) {pindex : CBlockIndex}
    (member : pindex ∈ chain) : (pindex.nHeight : Int) ≤ chain.height := by
  induction chain with
  | nil => cases member
  | cons tip ancestors ih =>
      obtain ⟨height, rest⟩ := linked
      cases member with
      | head => exact le_rfl
      | tail _ older =>
          have below := ih rest older
          cases ancestors with
          | nil => cases older
          | cons parent grandparents =>
              have parentHeight := rest.1
              simp only [CChain.height, List.length_cons] at below height ⊢
              omega

end CChain

theorem CCryptoYenStake.getIndexFrom_height [TxHasher] (stakeInput : CCryptoYenStake)
    (ctx : KernelContext) (linked : ctx.chainActive.Linked) (pindex : CBlockIndex)
    (found : stakeInput.getIndexFrom ctx = some pindex) :
    (pindex.nHeight : Int) ≤ ctx.chainActive.height := by
  unfold getIndexFrom at found
  split at found
  next => cases found
  next => exact linked.height_le (List.mem_of_find?_eq_some found)

end CryptoYen
