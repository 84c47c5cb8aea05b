import Artax.Consensus.Pow

/-!
# The stake kernel

`CheckStakeKernelHash`: the target of a stake is the target of the block times
the value of the coin, as a 256-bit product. It grows with the value as long as
the product does not wrap.
-/

namespace Artax

open ArithUint256

def weightedTarget (nBits : UInt32) (prevoutValue : CAmount) : U256 :=
  mul (setCompact nBits) (ofInt64 prevoutValue)

/-- `CheckStakeKernelHash`: whether the kernel is accepted, with its hash and its target; `none` where
the block is older than the coin. -/
def checkStakeKernelHash (hashKernel : H256 → UInt32 → COutPoint → UInt32 → U256)
    (nStakeModifier : H256) (nBits blockFromTime : UInt32) (prevoutValue : CAmount)
    (prevout : COutPoint) (nTimeBlock : UInt32) : Option (Bool × U256 × U256) :=
  if nTimeBlock < blockFromTime then none
  else
    let bnTarget := weightedTarget nBits prevoutValue
    let hashProofOfStake := hashKernel nStakeModifier blockFromTime prevout nTimeBlock
    some (!decide (bnTarget < hashProofOfStake), hashProofOfStake, bnTarget)

theorem toNat_weightedTarget {nBits : UInt32} {v : CAmount} (money : moneyRange v) :
    (weightedTarget nBits v).toNat =
      (setCompact nBits).toNat * v.toNat % 2 ^ 256 := by
  obtain ⟨low, high⟩ := (moneyRange_iff v).1 money
  have below : v < 2 ^ 64 := Int.lt_of_le_of_lt high (by decide)
  rw [weightedTarget, mul_eq, BitVec.toNat_mul, ofInt64,
    toNat_ofInt low below, BitVec.toNat_ofNat, Nat.mul_mod_mod]

/-- The weighted targets of both coins are exact, and a kernel hash accepted for the smaller coin is
accepted for the larger one. -/
def StakeGrows (nBits : UInt32) (v₁ v₂ : CAmount) : Prop :=
  ((weightedTarget nBits v₁).toNat : Int) = (setCompact nBits).toNat * v₁ ∧
  ((weightedTarget nBits v₂).toNat : Int) = (setCompact nBits).toNat * v₂ ∧
  ∀ hashKernel nStakeModifier blockFromTime prevout nTimeBlock hash target,
    checkStakeKernelHash hashKernel nStakeModifier nBits blockFromTime v₁ prevout nTimeBlock =
      some (true, hash, target) →
    ∃ target', checkStakeKernelHash hashKernel nStakeModifier nBits blockFromTime v₂ prevout
      nTimeBlock = some (true, hash, target')

theorem exact_of_lt {nBits : UInt32} {v : CAmount} (money : moneyRange v)
    (fits : ((setCompact nBits).toNat : Int) * maxMoney < 2 ^ 256) :
    ((weightedTarget nBits v).toNat : Int) = (setCompact nBits).toNat * v := by
  obtain ⟨low, high⟩ := (moneyRange_iff v).1 money
  have bound : ((setCompact nBits).toNat : Int) * v < 2 ^ 256 :=
    Int.lt_of_le_of_lt (Int.mul_le_mul_of_nonneg_left high (Int.natCast_nonneg _)) fits
  have same : (v.toNat : Int) = v := Int.toNat_of_nonneg low
  rw [toNat_weightedTarget money, Nat.mod_eq_of_lt]
  · rw [Int.natCast_mul, same]
  · rw [← same] at bound
    exact_mod_cast bound

/-- The stake grows with the coin for all coins exactly when the target of the block, times the
largest amount of money, fits a word. -/
theorem stakeGrows_iff (chain : List WorkIndex) (blockTime : Int) :
    (∀ v₁ v₂, moneyRange v₁ = true → moneyRange v₂ = true → v₁ ≤ v₂ →
      StakeGrows (getNextWorkRequired .main chain blockTime true) v₁ v₂) ↔
    ((setCompact (getNextWorkRequired .main chain blockTime true)).toNat : Int) *
      maxMoney < 2 ^ 256 := by
  generalize getNextWorkRequired .main chain blockTime true = nBits
  constructor
  · intro grows
    obtain ⟨product, _⟩ := grows maxMoney maxMoney rfl rfl (Int.le_refl _)
    rw [← product]
    exact_mod_cast (weightedTarget nBits maxMoney).isLt
  · intro fits v₁ v₂ money₁ money₂ le
    have exact₁ := exact_of_lt money₁ fits
    have exact₂ := exact_of_lt money₂ fits
    refine ⟨exact₁, exact₂, fun hashKernel nStakeModifier blockFromTime prevout nTimeBlock hash target
      accepted => ?_⟩
    have larger : weightedTarget nBits v₁ ≤ weightedTarget nBits v₂ := by
      rw [BitVec.le_def, ← Int.ofNat_le, exact₁, exact₂]
      exact Int.mul_le_mul_of_nonneg_left le (Int.natCast_nonneg _)
    unfold checkStakeKernelHash at accepted ⊢
    split_ifs at accepted ⊢ with early
    simp only [Option.some.injEq, Prod.mk.injEq, Bool.not_eq_true', decide_eq_false_iff_not,
      BitVec.not_lt] at accepted ⊢
    obtain ⟨met, same, _⟩ := accepted
    exact ⟨_, BitVec.le_trans met larger, same, rfl⟩

def genesisIndex : WorkIndex := ⟨0, 0, 0, false⟩

/-- For the first proof-of-stake block the weighted target of a coin of 2^48 satoshis is zero: hash 1
is accepted with one satoshi and rejected with that coin. -/
theorem largeStake_rejected :
    getNextWorkRequired .main [genesisIndex] 1000 true = 0x1d00ffff ∧
      moneyRange (2 ^ 48) = true ∧ weightedTarget 0x1d00ffff (2 ^ 48) = 0#256 ∧
      checkStakeKernelHash (fun _ _ _ _ => 1#256) 0 0x1d00ffff 0 1 ⟨5, 0⟩ 16 =
        some (true, 1#256, BitVec.ofNat 256 (0xffff * 2 ^ 208)) ∧
      checkStakeKernelHash (fun _ _ _ _ => 1#256) 0 0x1d00ffff 0 (2 ^ 48) ⟨5, 0⟩ 16 =
        some (false, 1#256, 0#256) := by
  decide +kernel

end Artax
