import CryptoYen.Primitives.Block

set_option autoImplicit false

namespace CryptoYen

inductive Network
  | main | testnet | regtest | unittest
  deriving DecidableEq, Repr

structure CChainParams where
  networkID : Network
  genesis : CBlockHeader
  bnProofOfWorkLimit : Uint256
  nMaxReorganizationDepth : Nat
  nEnforceBlockUpgradeMajority : Nat
  nRejectBlockOutdatedMajority : Nat
  nToCheckBlockUpgradeMajority : Nat
  nTargetSpacing : Int
  nMaturity : Int
  nMaxMoneyOut : Int
  nLastPOWBlock : Nat
  nBlockEnforceInvalidUTXO : Nat
  fRequireStandard : Bool
  fMineBlocksOnDemand : Bool
  fSkipProofOfWorkCheck : Bool
  mapCheckpoints : List (Nat × Uint256)

namespace CChainParams

def hashGenesisBlock [BlockHasher] (params : CChainParams) : Uint256 := params.genesis.getHash

def mainParams : CChainParams where
  networkID := .main
  genesis :=
    { nVersion := 1
      hashPrevBlock := 0
      hashMerkleRoot := 0xe44f9982f4fdd9e319818dc90aab39eef000b2faa3847e0d0f89b9a4ef173e97
      nTime := 1613150237
      nBits := 0x1e0fffff
      nNonce := 6285821 }
  bnProofOfWorkLimit := ~~~(0 : Uint256) >>> 20
  nMaxReorganizationDepth := 100
  nEnforceBlockUpgradeMajority := 750
  nRejectBlockOutdatedMajority := 950
  nToCheckBlockUpgradeMajority := 1000
  nTargetSpacing := 60
  nMaturity := 60
  nMaxMoneyOut := 8000000 * COIN
  nLastPOWBlock := 200
  nBlockEnforceInvalidUTXO := 1999999999
  fRequireStandard := true
  fMineBlocksOnDemand := false
  fSkipProofOfWorkCheck := false
  mapCheckpoints :=
    [(0, 0x00000aa81f0006e1130ddd841e4220ac73d8a7e716dfb6e9fddeaad1e022a709),
      (1, 0x0000005de530632428ea9fc6dd9031275a7f5d97a90e7c2ef22754a0dd85910f),
      (103, 0x0000007bd63343a83c293cf75c23f69c214ac837c758998f0ce887080681f002),
      (115, 0x000009c2211578403779e4c21f76e9159e8abec7e774424e5e1e3aa282efc8c4)]

def testNetParams : CChainParams :=
  { mainParams with
    networkID := .testnet
    genesis := { mainParams.genesis with nTime := 1536062401, nNonce := 5056440 }
    nEnforceBlockUpgradeMajority := 51
    nRejectBlockOutdatedMajority := 75
    nToCheckBlockUpgradeMajority := 100
    nMaturity := 15
    nMaxMoneyOut := 43199500 * COIN
    nLastPOWBlock := 120
    nBlockEnforceInvalidUTXO := 9902850
    mapCheckpoints := [(0, 0x001)] }

def regTestParams : CChainParams :=
  { testNetParams with
    networkID := .regtest
    genesis :=
      { mainParams.genesis with nTime := 1613150237, nBits := 0x207fffff, nNonce := 12347 }
    bnProofOfWorkLimit := ~~~(0 : Uint256) >>> 1
    nEnforceBlockUpgradeMajority := 750
    nRejectBlockOutdatedMajority := 950
    nToCheckBlockUpgradeMajority := 1000
    fRequireStandard := false
    fMineBlocksOnDemand := true }

def unitTestParams (fSkipProofOfWorkCheck : Bool) : CChainParams :=
  { mainParams with
    networkID := .unittest
    fMineBlocksOnDemand := true
    fSkipProofOfWorkCheck := fSkipProofOfWorkCheck }

def networks : List CChainParams :=
  [mainParams, testNetParams, regTestParams, unitTestParams true, unitTestParams false]

end CChainParams

namespace Checkpoints

def checkBlock (fEnabled : Bool) (params : CChainParams) (nHeight : Nat) (hash : Uint256)
    (fMatchesCheckpoint : Bool) : Bool :=
  if !fEnabled then true
  else
    match params.mapCheckpoints.lookup nHeight with
    | none => !fMatchesCheckpoint
    | some checkpoint => hash == checkpoint

def getTotalBlocksEstimate (fEnabled : Bool) (params : CChainParams) : Nat :=
  if !fEnabled then 0 else (params.mapCheckpoints.getLast?.map Prod.fst).getD 0

end Checkpoints

end CryptoYen
