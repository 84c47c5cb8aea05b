import Artax.Consensus.Pow
import Mathlib.Algebra.BigOperators.Group.Finset.Piecewise
import Mathlib.Algebra.Order.BigOperators.Group.Finset
import Mathlib.Tactic.Ring

/-!
# The emission schedule

On the main network all subsidies together stay below `MAX_MONEY`, and the supply of a chain that
mints no more below what `ConnectBlock` expects, computed as in the source: in `int`, then in
`uint64_t`.
-/

namespace Artax

open Finset

/-- What is issued up to a height on the main network: the blocks at each level of the schedule,
times the subsidy there. -/
def issued (nHeight : Nat) : CAmount :=
  1800 * coin * (min nHeight 5500 : Nat) + ∑ k ∈ range 7,
    (4 * coin) >>> k * (min (nHeight - 5500 - 985500 * k) 985500 : Nat)

/-- What it allows at a height. -/
def expectedMoneySupply (nHeight : Int32) : UInt64 :=
  UInt64.ofInt (100000000 + (nHeight - 5000) * 4).toInt * UInt64.ofInt coin

/-- The check of `ConnectBlock` on `nMoneySupply`. -/
def incorrectMoneySupply (params : ConsensusParams) (nHeight : Int32) (nMoneySupply : UInt64) : Bool :=
  decide (5000 < nHeight) && !params.fPoSNoRetargeting &&
    decide (expectedMoneySupply nHeight < nMoneySupply)

/-- A chain above the genesis block, the newest block first: what each block spends and what it
makes, its `nValueIn` and `nValueOut`. -/
abbrev Minting := List (CAmount × CAmount)

namespace Minting

def nMoneySupply : Minting → UInt64
  | [] => 0
  | (nValueIn, nValueOut) :: below =>
    nMoneySupply below + UInt64.ofInt nValueOut - UInt64.ofInt nValueIn

def coins : Minting → CAmount
  | [] => 0
  | (nValueIn, nValueOut) :: below => coins below + nValueOut - nValueIn

/-- No block creates more than its subsidy, or spends coins that do not exist. -/
def Allowed (params : ConsensusParams) : Minting → Prop
  | [] => True
  | (nValueIn, nValueOut) :: below => Allowed params below ∧
    nValueOut - nValueIn ≤ getBlockSubsidy (below.length + 1) params ∧
      nValueIn ≤ coins below + nValueOut

end Minting

variable (nHeight : Nat)

theorem getBlockSubsidy_main : getBlockSubsidy nHeight .main =
    if nHeight ≤ 5500 then 1800 * coin
    else if (nHeight - 5501) / 985500 < 7 then (4 * coin) >>> ((nHeight - 5501) / 985500) else 0 := by
  unfold getBlockSubsidy
  simp only [ConsensusParams.main, Nat.sub_sub, ← Nat.not_lt (b := 7), ite_not]

theorem min_succ_level (nHeight k : Nat) : min (nHeight + 1 - 5500 - 985500 * k) 985500 =
    min (nHeight - 5500 - 985500 * k) 985500 +
      if (nHeight - 5500) / 985500 = k then if 5500 ≤ nHeight then 1 else 0 else 0 := by
  split_ifs <;> omega

theorem issued_succ :
    issued (nHeight + 1) = issued nHeight + getBlockSubsidy (nHeight + 1) .main := by
  simp only [issued, min_succ_level, Nat.cast_add, mul_add, sum_add_distrib]
  rw [getBlockSubsidy_main, Nat.add_sub_add_right]
  simp only [Nat.cast_ite, mul_ite, sum_ite_eq, mem_range, Nat.cast_one, Nat.cast_zero, mul_one,
    mul_zero]
  by_cases work : nHeight + 1 ≤ 5500
  · rw [if_pos work, if_neg (by omega : ¬5500 ≤ nHeight), ite_self, Nat.min_eq_left work,
      Nat.min_eq_left (by omega)]
    push_cast
    ring
  · rw [if_neg work, if_pos (by omega : 5500 ≤ nHeight), Nat.min_eq_right (by omega),
      Nat.min_eq_right (by omega)]
    ring

theorem sum_getBlockSubsidy :
    ∑ i ∈ range nHeight, getBlockSubsidy (i + 1) .main = issued nHeight := by
  induction nHeight with
  | zero => decide
  | succ nHeight ih => rw [sum_range_succ, ih, issued_succ]

theorem level_nonneg (k : Nat) : 0 ≤ (4 * coin) >>> k := Int.le_shiftRight_of_nonneg (by decide)

theorem issued_le : issued nHeight ≤ maxMoney := by
  have work : 1800 * coin * (min nHeight 5500 : Nat) ≤ 1800 * coin * (5500 : Nat) :=
    Int.mul_le_mul_of_nonneg_left (Int.ofNat_le.2 (Nat.min_le_right _ _)) (by decide)
  have stake : ∑ k ∈ range 7, (4 * coin) >>> k *
      ((min (nHeight - 5500 - 985500 * k) 985500 : Nat) : CAmount) ≤
      ∑ k ∈ range 7, (4 * coin) >>> k * ((985500 : Nat) : CAmount) :=
    sum_le_sum fun k _ => Int.mul_le_mul_of_nonneg_left
      (Int.ofNat_le.2 (Nat.min_le_right _ _)) (level_nonneg k)
  exact (Int.add_le_add work stake).trans (by decide)

theorem issued_nonneg : 0 ≤ issued nHeight :=
  Int.add_nonneg (Int.mul_nonneg (by decide) (Int.natCast_nonneg _))
    (sum_nonneg fun k _ => Int.mul_nonneg (level_nonneg k) (Int.natCast_nonneg _))

theorem getBlockSubsidy_succ_le (i : Nat) :
    getBlockSubsidy (i + 1) .main ≤ getBlockSubsidy i .main := by
  have level (k : Nat) : (4 * coin) >>> (k + 1) ≤ (4 * coin) >>> k := by
    rw [Int.shiftRight_add]
    exact Int.shiftRight_le_of_nonneg (level_nonneg k)
  simp only [getBlockSubsidy_main]
  by_cases work : i + 1 ≤ 5500
  · rw [if_pos work, if_pos (by omega)]
  rw [if_neg work]
  by_cases first : i ≤ 5500
  · rw [if_pos first]
    split_ifs
    · exact (Int.shiftRight_le_of_nonneg (by decide)).trans (by decide)
    · decide
  rw [if_neg first]
  obtain same | next : (i + 1 - 5501) / 985500 = (i - 5501) / 985500 ∨
      (i + 1 - 5501) / 985500 = (i - 5501) / 985500 + 1 := by omega
  · rw [same]
  · rw [next]
    split_ifs
    · exact level _
    · omega
    · exact level_nonneg _
    · rfl

namespace Minting

theorem nMoneySupply_eq (chain : Minting) : chain.nMoneySupply = UInt64.ofInt chain.coins := by
  induction chain with
  | nil => rfl
  | cons block below ih =>
    rw [nMoneySupply, coins, ih, Int.sub_eq_add_neg, UInt64.ofInt_add, UInt64.ofInt_add,
      UInt64.ofInt_neg, UInt64.sub_eq_add_neg]

theorem Allowed.coins {chain : Minting} (allowed : Allowed .main chain) :
    0 ≤ chain.coins ∧ chain.coins ≤ issued chain.length := by
  induction chain with
  | nil => decide
  | cons block below ih =>
    obtain ⟨before, minted, spent⟩ := allowed
    obtain ⟨_, bound⟩ := ih before
    rw [List.length_cons, issued_succ, Minting.coins]
    exact ⟨by linarith, by linarith⟩

end Minting

/-- The bound of `ConnectBlock` does not wrap in `int` or in `uint64_t`. -/
theorem toNat_expectedMoneySupply {nHeight : Nat} (low : 5000 ≤ nHeight) (high : nHeight < 500000000) :
    (expectedMoneySupply (Int32.ofNat nHeight)).toNat =
      (100000000 + (nHeight - 5000) * 4) * 100000000 := by
  have height : (100000000 + (Int32.ofNat nHeight - 5000) * 4).toInt =
      100000000 + ((nHeight : Int) - 5000) * 4 := by
    rw [Int32.toInt_add, Int32.toInt_mul, Int32.toInt_sub, Int32.toInt_ofNat_of_lt (by omega)]
    simp only [Int32.reduceToInt]
    rw [Int.bmod_eq_of_le (n := (nHeight : Int) - 5000) (by omega) (by omega),
      Int.bmod_eq_of_le (n := ((nHeight : Int) - 5000) * 4) (by omega) (by omega),
      Int.bmod_eq_of_le (by omega) (by omega)]
  rw [expectedMoneySupply, height, ← UInt64.ofInt_mul, coin, ArithUint256.toNat_ofInt] <;> omega

/-- On the main network the subsidies up to any height add up to at most `MAX_MONEY`, in each partial
sum within `CAmount`, never grow and end at zero; and no block below height 500,000,000 is rejected
for the money supply of a chain that creates no more. -/
theorem emission_capped :
    (∀ h < 500000000, ∑ i ∈ range h, getBlockSubsidy (i + 1) .main ≤ maxMoney) ∧
    (∀ i j, i ≤ j → getBlockSubsidy j .main ≤ getBlockSubsidy i .main) ∧
    (∃ last, ∀ i ≥ last, getBlockSubsidy i .main = 0) ∧
    (∀ h, 0 ≤ ∑ i ∈ range h, getBlockSubsidy (i + 1) .main ∧
      ∑ i ∈ range h, getBlockSubsidy (i + 1) .main < 2 ^ 63) ∧
    ∀ chain : Minting, chain.length < 500000000 → chain.Allowed .main →
      incorrectMoneySupply .main (Int32.ofNat chain.length) chain.nMoneySupply = false := by
  refine ⟨fun h _ => ?_, fun i j later => ?_, ⟨5501 + 985500 * 7, fun i late => ?_⟩, fun h => ?_,
    fun chain short allowed => ?_⟩
  · rw [sum_getBlockSubsidy]
    exact issued_le h
  · induction later with
    | refl => exact Int.le_refl _
    | step _ ih => exact (getBlockSubsidy_succ_le _).trans ih
  · rw [getBlockSubsidy_main, if_neg (by omega), if_neg (by omega)]
  · rw [sum_getBlockSubsidy]
    exact ⟨issued_nonneg h, (issued_le h).trans_lt (by decide)⟩
  · obtain ⟨nonneg, minted⟩ := allowed.coins
    have below : chain.coins ≤ maxMoney := minted.trans (issued_le _)
    have capped : chain.coins.toNat ≤ 2100000025000000 := Int.toNat_le.2 below
    by_cases early : 5000 < Int32.ofNat chain.length
    · have late : 5000 < chain.length := by
        rw [Int32.lt_iff_toInt_lt, Int32.toInt_ofNat_of_lt (by omega)] at early
        simpa using early
      have expected := toNat_expectedMoneySupply late.le short
      have supply := ArithUint256.toNat_ofInt nonneg (below.trans_lt (by decide))
      have within : ¬expectedMoneySupply (Int32.ofNat chain.length) < chain.nMoneySupply := by
        rw [UInt64.lt_iff_toNat_lt, expected, Minting.nMoneySupply_eq, supply]
        omega
      simp [incorrectMoneySupply, within]
    · simp [incorrectMoneySupply, early]

def earlyChain (length : Nat) : Minting := List.replicate length (3 * coin, 1803 * coin)

theorem allowed_earlyChain {length : Nat} (early : length ≤ 5500) :
    (earlyChain length).Allowed .main := by
  induction length with
  | zero => trivial
  | succ length ih =>
    have before := ih (by omega)
    have positive : 0 ≤ coin := by decide
    have exist := before.coins.1
    have minted : 1803 * coin - 3 * coin ≤ getBlockSubsidy ((earlyChain length).length + 1) .main := by
      rw [earlyChain, List.length_replicate, getBlockSubsidy_main, if_pos early]
      linarith
    have spent : 3 * coin ≤ (earlyChain length).coins + 1803 * coin := by linarith
    exact ⟨before, minted, spent⟩

/-- A chain past height 5000 whose blocks all create their subsidy. -/
theorem emission_capped_earlyChain : (earlyChain 5400).Allowed .main ∧
    incorrectMoneySupply .main (Int32.ofNat (earlyChain 5400).length) (earlyChain 5400).nMoneySupply =
      false :=
  have allowed := allowed_earlyChain (by decide)
  ⟨allowed, emission_capped.2.2.2.2 _ (by rw [earlyChain, List.length_replicate]; decide) allowed⟩

end Artax
