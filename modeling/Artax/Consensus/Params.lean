import Artax.Primitives.Transaction

/-!
# Consensus parameters and the block subsidy

The chain parameters that the modelled checks read, with the values of the main
network.
-/

namespace Artax

def coinbaseMaturity : Nat := 500

structure ConsensusParams where
  hashGenesisBlock : H256
  nSubsidyHalvingInterval : Nat
  nLastPOWBlock : Nat
  nFirstMPoSBlock : Nat
  nMPoSRewardRecipients : Nat
  fPoSNoRetargeting : Bool
  powLimit : U256
  posLimit : U256
  fPowAllowMinDifficultyBlocks : Bool
  fPowNoRetargeting : Bool
  nPowTargetSpacing : Int
  nPowTargetTimespan : Int
  deriving DecidableEq, Repr

def ConsensusParams.difficultyAdjustmentInterval (params : ConsensusParams) : Int :=
  params.nPowTargetTimespan.tdiv params.nPowTargetSpacing

def ConsensusParams.main : ConsensusParams where
  hashGenesisBlock := 0x00002ec6a82bc47bfb3e13b3530503b3d6ee28eb20555634d227a9ea1572a92a
  nSubsidyHalvingInterval := 985500
  nLastPOWBlock := 5500
  nFirstMPoSBlock := 5500 + 10 + coinbaseMaturity
  nMPoSRewardRecipients := 10
  fPoSNoRetargeting := false
  powLimit := BitVec.ofNat 256 (2 ^ 240 - 1)
  posLimit := BitVec.ofNat 256 (2 ^ 224 - 1)
  fPowAllowMinDifficultyBlocks := false
  fPowNoRetargeting := true
  nPowTargetSpacing := 2 * 64
  nPowTargetTimespan := 16 * 60

/-- `GetBlockSubsidy`. -/
def getBlockSubsidy (nHeight : Nat) (params : ConsensusParams) : CAmount :=
  if nHeight ≤ params.nLastPOWBlock then 1800 * coin
  else
    let halvings := (nHeight - params.nLastPOWBlock - 1) / params.nSubsidyHalvingInterval
    if 7 ≤ halvings then 0 else (4 * coin) >>> halvings

end Artax
