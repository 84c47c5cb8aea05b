import Artax.Consensus.Params
import Artax.Evm.Account
import Artax.Util.Limbs

/-!
# Targets

`arith_uint256` as a 256-bit word, with its multiplication loop and the compact
form of targets, and `GetNextWorkRequired`, which computes the target of the next
block of a kind from the blocks before.
-/

namespace Artax

namespace ArithUint256

def pn (x : U256) : List UInt32 := Util.Limbs.ofNat 8 x.toNat

/-- `base_uint::operator*=`. -/
def mul (x b : U256) : U256 := BitVec.ofNat 256 (Util.Limbs.value (Util.Limbs.mul (pn x) (pn b)))

theorem mul_eq (x b : U256) : mul x b = x * b := by
  have limbs : ∀ y : U256, Util.Limbs.value (pn y) = y.toNat := fun y => by
    rw [pn, Util.Limbs.value_ofNat]
    exact Nat.mod_eq_of_lt y.isLt
  have product : Util.Limbs.value (Util.Limbs.mul (pn x) (pn b)) = x.toNat * b.toNat % 2 ^ 256 := by
    rw [Util.Limbs.value_mul (by simp [pn]), limbs, limbs]
    simp [pn]
  apply BitVec.eq_of_toNat_eq
  rw [mul, product, BitVec.toNat_ofNat, BitVec.toNat_mul, Nat.mod_mod]

def ofInt64 (b : Int) : U256 := BitVec.ofNat 256 (UInt64.ofInt b).toNat

theorem toNat_ofInt {b : Int} (low : 0 ≤ b) (high : b < 2 ^ 64) : (UInt64.ofInt b).toNat = b.toNat := by
  rw [UInt64.ofInt, UInt64.toNat_ofNat', Int.emod_eq_of_lt low high]
  omega

/-- `base_uint::bits`. -/
def bits (x : U256) : Nat := if x = 0#256 then 0 else Nat.log2 x.toNat + 1

def getLow64 (x : U256) : UInt64 := UInt64.ofNat x.toNat

/-- `arith_uint256::SetCompact`. -/
def setCompact (nCompact : UInt32) : U256 :=
  let nSize := (nCompact >>> 24).toNat
  let nWord := nCompact &&& 0x007fffff
  if nSize ≤ 3 then BitVec.ofNat 256 (nWord.toNat >>> (8 * (3 - nSize)))
  else BitVec.ofNat 256 nWord.toNat <<< (8 * (nSize - 3))

/-- `arith_uint256::GetCompact`. -/
def getCompact (x : U256) : UInt32 :=
  let nSize := (bits x + 7) / 8
  let nCompact : UInt32 :=
    if nSize ≤ 3 then (getLow64 x <<< UInt64.ofNat (8 * (3 - nSize))).toUInt32
    else (getLow64 (x >>> (8 * (nSize - 3)))).toUInt32
  -- the bit that would be read as the sign moves the mantissa down
  if nCompact &&& 0x00800000 ≠ 0 then (nCompact >>> 8) ||| (UInt32.ofNat (nSize + 1) <<< 24)
  else nCompact ||| (UInt32.ofNat nSize <<< 24)

end ArithUint256

structure WorkIndex where
  nHeight : Nat
  nTime : UInt32
  nBits : UInt32
  isProofOfStake : Bool
  deriving DecidableEq, Repr

namespace WorkIndex

def getBlockTime (index : WorkIndex) : Int := index.nTime.toNat

end WorkIndex

/-- `GetLastBlockIndex`. -/
def getLastBlockIndex (fProofOfStake : Bool) : List WorkIndex → List WorkIndex
  | pindex :: prev :: rest =>
    if pindex.isProofOfStake ≠ fProofOfStake then getLastBlockIndex fProofOfStake (prev :: rest)
    else pindex :: prev :: rest
  | chain => chain

/-- `GetLimit`. -/
def getLimit (params : ConsensusParams) (fProofOfStake : Bool) : U256 :=
  if fProofOfStake then params.posLimit else params.powLimit

/-- `CalculateNextWorkRequired`. -/
def calculateNextWorkRequired (params : ConsensusParams) (pindexLast : WorkIndex)
    (nFirstBlockTime : Int) (fProofOfStake : Bool) : UInt32 :=
  if (if fProofOfStake then params.fPoSNoRetargeting else params.fPowNoRetargeting) then
    pindexLast.nBits
  else
    let nTargetSpacing := params.nPowTargetSpacing
    let nActualSpacing := pindexLast.getBlockTime - nFirstBlockTime
    let nActualSpacing := if nActualSpacing < 0 then nTargetSpacing else nActualSpacing
    let nActualSpacing :=
      if nTargetSpacing * 10 < nActualSpacing then nTargetSpacing * 10 else nActualSpacing
    let bnTargetLimit := getLimit params fProofOfStake
    let nInterval := params.difficultyAdjustmentInterval
    -- the factor is converted to 32 bits, the divisor to a word
    let factor := UInt32.ofInt ((nInterval - 1) * nTargetSpacing + nActualSpacing + nActualSpacing)
    let bnNew := ArithUint256.setCompact pindexLast.nBits * BitVec.ofNat 256 factor.toNat
    let bnNew := bnNew / ArithUint256.ofInt64 ((nInterval + 1) * nTargetSpacing)
    ArithUint256.getCompact
      (if bnNew = 0#256 ∨ bnTargetLimit < bnNew then bnTargetLimit else bnNew)

def lastRegularBits (params : ConsensusParams) (nTargetLimit : UInt32) : List WorkIndex → UInt32
  | pindex :: prev :: rest =>
    if (pindex.nHeight : Int).tmod params.difficultyAdjustmentInterval ≠ 0 ∧ pindex.nBits = nTargetLimit
    then lastRegularBits params nTargetLimit (prev :: rest) else pindex.nBits
  | [pindex] => pindex.nBits
  | [] => nTargetLimit

/-- `GetNextWorkRequired`. -/
def getNextWorkRequired (params : ConsensusParams) (chain : List WorkIndex) (blockTime : Int)
    (fProofOfStake : Bool) : UInt32 :=
  let nTargetLimit := ArithUint256.getCompact (getLimit params fProofOfStake)
  match chain with
  | [] => nTargetLimit
  | pindexLast :: _ =>
    match getLastBlockIndex fProofOfStake chain with
    | pindexPrev :: before :: rest =>
      match getLastBlockIndex fProofOfStake (before :: rest) with
      | pindexPrevPrev :: _ :: _ =>
        if params.fPowAllowMinDifficultyBlocks then
          if pindexLast.getBlockTime + params.nPowTargetSpacing * 2 < blockTime then nTargetLimit
          else lastRegularBits params nTargetLimit chain
        else calculateNextWorkRequired params pindexPrev pindexPrevPrev.getBlockTime fProofOfStake
      | _ => nTargetLimit
    | _ => nTargetLimit

end Artax
