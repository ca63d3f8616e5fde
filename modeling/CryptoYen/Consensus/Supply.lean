import CryptoYen.Consensus.Chain

set_option autoImplicit false

namespace CryptoYen

-- The subsidy of a height, cut off where the supply at the tip reaches MaxMoneyOut.
def getBlockValue (params : CChainParams) (chainActive : CChain) (nHeight : Int) : Int :=
  let nSubsidy := if nHeight < 1 then 1000000 * COIN else 20000000
  let nMoneySupply := chainActive.nMoneySupply
  if params.nMaxMoneyOut ≤ nMoneySupply then 0
  else if params.nMaxMoneyOut ≤ nMoneySupply + nSubsidy then params.nMaxMoneyOut - nMoneySupply
  else nSubsidy

def masternodeShare (mnlevel : Nat) : Int :=
  match mnlevel with
  | 1 => 7
  | 2 => 20
  | 3 => 30
  | 4 => 40
  | _ => 0

-- The block value that the caller passes is replaced by the one of the height.
def getMasternodePayment (params : CChainParams) (chainActive : CChain) (nHeight : Int)
    (mnlevel : Nat) (_blockValue : Int) : Int :=
  (getBlockValue params chainActive nHeight * masternodeShare mnlevel).tdiv 100

theorem getBlockValue_nonneg (params : CChainParams) (chainActive : CChain) (nHeight : Int) :
    0 ≤ getBlockValue params chainActive nHeight := by
  simp only [getBlockValue, COIN]
  split
  next => exact le_rfl
  next below =>
    split
    next => omega
    next =>
      split <;> omega

theorem getBlockValue_le (params : CChainParams) (chainActive : CChain) (nHeight : Int)
    (started : 1 ≤ nHeight) : getBlockValue params chainActive nHeight ≤ 20000000 := by
  simp only [getBlockValue, show ¬ nHeight < 1 by omega, ↓reduceIte]
  split
  next => omega
  next =>
    split <;> omega

theorem masternodeShare_bound (mnlevel : Nat) :
    0 ≤ masternodeShare mnlevel ∧ masternodeShare mnlevel ≤ 40 := by
  unfold masternodeShare
  split <;> omega

theorem getMasternodePayment_bound (params : CChainParams) (chainActive : CChain) (nHeight : Int)
    (mnlevel : Nat) (blockValue : Int) :
    0 ≤ getMasternodePayment params chainActive nHeight mnlevel blockValue ∧
      getMasternodePayment params chainActive nHeight mnlevel blockValue ≤
        getBlockValue params chainActive nHeight := by
  have value := getBlockValue_nonneg params chainActive nHeight
  obtain ⟨low, high⟩ := masternodeShare_bound mnlevel
  have product : 0 ≤ getBlockValue params chainActive nHeight * masternodeShare mnlevel :=
    Int.mul_nonneg value low
  have bound : getBlockValue params chainActive nHeight * masternodeShare mnlevel ≤
      getBlockValue params chainActive nHeight * 40 :=
    Int.mul_le_mul_of_nonneg_left high value
  rw [getMasternodePayment, Int.tdiv_eq_ediv_of_nonneg product]
  constructor <;> omega

end CryptoYen
