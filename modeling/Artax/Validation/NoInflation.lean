import Artax.Validation.Connected

/-!
# What a block creates

A block may create the subsidy and no more. `CheckTxInputs` does not bound a coinstake, which is told
by its shape alone. In a proof-of-stake block there is exactly one, and `CheckReward` bounds it; in a
proof-of-work block it bounds the coinbase, and nothing bounds a coinstake.
-/

namespace Artax

open CTransaction CoinsView List

namespace CoinsView

variable (computeHash : CTransaction → H256) (nHeight : Nat)

/-- A sum over transactions that are applied one after the other, of an amount that depends on the
coins before each. -/
def sumOver (amount : CoinsView → CTransaction → CAmount) : CoinsView → List CTransaction → CAmount
  | _, [] => 0
  | view, tx :: rest =>
    amount view tx + sumOver amount (view.updateCoins computeHash tx nHeight).1 rest

def spentValue : CoinsView → List CTransaction → CAmount := sumOver computeHash nHeight getValueIn

def stakeGain (view : CoinsView) (tx : CTransaction) : CAmount :=
  if !tx.isCoinBase && tx.isCoinStake then tx.valueOut - view.valueOf tx.vin else 0

theorem sum_stakeGain_eq_zero {txs : List CTransaction}
    (plain : ∀ tx ∈ txs, tx.isCoinBase = false → tx.isCoinStake = false) (view : CoinsView) :
    sumOver computeHash nHeight stakeGain view txs = 0 := by
  induction txs generalizing view with
  | nil => rfl
  | cons tx rest ih =>
    have none : view.stakeGain tx = 0 := by
      have shape := plain tx mem_cons_self
      unfold stakeGain
      cases coinbase : tx.isCoinBase with
      | true => rfl
      | false => simp [shape coinbase]
    rw [sumOver, none, ih (fun tx member => plain tx (mem_cons_of_mem _ member))]
    rfl

/-- Outputs less inputs of transactions that are no coinbase: what the coinstakes gain less what the
others leave as fees. -/
theorem valueOut_sub_spentValue {txs : List CTransaction}
    (plain : ∀ tx ∈ txs, tx.isCoinBase = false) (view : CoinsView) :
    (txs.map valueOut).sum - spentValue computeHash nHeight view txs =
      sumOver computeHash nHeight stakeGain view txs -
        sumOver computeHash nHeight countedFee view txs := by
  induction txs generalizing view with
  | nil => rfl
  | cons tx rest ih =>
    have tail := ih (fun tx member => plain tx (mem_cons_of_mem _ member))
      (view.updateCoins computeHash tx nHeight).1
    have coinbase := plain tx mem_cons_self
    have head : tx.valueOut - view.getValueIn tx = view.stakeGain tx - view.countedFee tx := by
      unfold getValueIn stakeGain countedFee
      cases stake : tx.isCoinStake <;> simp [coinbase]
    unfold spentValue at tail ⊢
    simp only [map_cons, sum_cons, sumOver]
    generalize sumOver computeHash nHeight getValueIn _ rest = spent at tail ⊢
    generalize sumOver computeHash nHeight stakeGain _ rest = gains at tail ⊢
    generalize sumOver computeHash nHeight countedFee _ rest = fees at tail ⊢
    generalize (rest.map valueOut).sum = paid at tail ⊢
    generalize tx.valueOut = out at head ⊢
    generalize view.getValueIn tx = value at head ⊢
    generalize view.stakeGain tx = gain at head ⊢
    generalize view.countedFee tx = fee at head ⊢
    linarith

end CoinsView

def CBlock.createdValue (computeHash : CTransaction → H256) (nHeight : Nat) (view : CoinsView)
    (block : CBlock) : CAmount :=
  (block.vtx.map valueOut).sum - view.spentValue computeHash nHeight block.vtx

namespace ConnectEnv

variable {env : ConnectEnv} {r : Round} {txs : List CTransaction}

theorem fees_of_loop {s s' : Connecting} (passed : txs.foldlM (env.connectTx r) s = .ok s') :
    s'.nFees = s.nFees + s.view.sumOver env.computeHash r.nHeight countedFee txs := by
  induction txs generalizing s with
  | nil =>
    cases passed
    exact (Int.add_zero _).symm
  | cons tx rest ih =>
    rw [foldlM_cons, Util.bind_eq_ok] at passed
    obtain ⟨middle, now, later⟩ := passed
    have connected := txConnected_of_connectTx now
    rw [ih later, connected.fees, connected.view, sumOver, Int.add_assoc]

theorem stake_of_loop {s s' : Connecting} (plain : ∀ tx ∈ txs, tx.isCoinStake = false)
    (passed : txs.foldlM (env.connectTx r) s = .ok s') :
    s'.nActualStakeReward = s.nActualStakeReward := by
  induction txs generalizing s with
  | nil =>
    cases passed
    rfl
  | cons tx rest ih =>
    rw [foldlM_cons, Util.bind_eq_ok] at passed
    obtain ⟨middle, now, later⟩ := passed
    have connected := txConnected_of_connectTx now
    rw [ih (fun tx member => plain tx (mem_cons_of_mem _ member)) later, connected.stake,
      plain tx mem_cons_self, Bool.and_false, if_neg Bool.false_ne_true]

variable {chain : ActiveChain} {prev : PrevIndex} {view : CoinsView} {state : ArtaxState}
  {block : CBlock} {s : Connecting}

def unclaimed (env : ConnectEnv) (nHeight : Nat) (view : CoinsView) (block : CBlock) : CAmount :=
  view.sumOver env.computeHash nHeight countedFee block.vtx +
    getBlockSubsidy nHeight env.params - block.coinbase.valueOut

def stakeGains (env : ConnectEnv) (nHeight : Nat) (view : CoinsView) (block : CBlock) : CAmount :=
  view.sumOver env.computeHash nHeight stakeGain block.vtx

theorem createdValue_eq (checked : env.BlockChecked block) (nHeight : Nat) :
    block.createdValue env.computeHash nHeight view =
      getBlockSubsidy nHeight env.params + env.stakeGains nHeight view block -
        env.unclaimed nHeight view block := by
  obtain ⟨rest, split, coinbase, _, _, plain⟩ := checked.vtx_eq
  have tail := valueOut_sub_spentValue env.computeHash nHeight plain
    (view.updateCoins env.computeHash block.coinbase nHeight).1
  unfold CBlock.createdValue stakeGains unclaimed
  unfold spentValue at tail ⊢
  have value : view.getValueIn block.coinbase = 0 := by rw [getValueIn, if_pos coinbase]
  have fee : view.countedFee block.coinbase = 0 := by simp [countedFee, coinbase]
  have gain : view.stakeGain block.coinbase = 0 := by simp [stakeGain, coinbase]
  generalize block.coinbase = first at *
  rw [split]
  simp only [sumOver, map_cons, sum_cons, value, fee, gain]
  linarith

theorem coinbase_valueOut (empty : block.checkFirstCoinstakeOutput) :
    block.coinbase.valueOut = 0 := by
  have zero {txout : CTxOut} (isEmpty : txout.isEmpty) : txout.nValue = 0 := by
    simpa using (Bool.and_eq_true_iff.1 isEmpty).1
  unfold CBlock.checkFirstCoinstakeOutput at empty
  unfold valueOut
  repeat' split at empty
  all_goals try cases empty
  · rename_i txout single
    rw [single]
    simp [zero empty]
  · rename_i first second double
    obtain ⟨isEmpty, none⟩ := Bool.and_eq_true_iff.1 empty
    rw [double]
    have nothing : second.nValue = 0 := by simpa using none
    simp [zero isEmpty, nothing]

theorem reward_le_of_connected (connected : BlockConnected env chain prev view state block r s) :
    if block.isProofOfStake
    then s.nActualStakeReward ≤ view.sumOver env.computeHash r.nHeight countedFee block.vtx +
      getBlockSubsidy r.nHeight env.params
    else 0 ≤ env.unclaimed r.nHeight view block := by
  have concluded := connected.concluded
  simp only [concludeBlock, Util.bind_eq_ok] at concluded
  obtain ⟨_, _, concluded⟩ := concluded
  split at concluded
  · cases concluded
  · rename_i checkedReward
    have bound := reward_le_of_checkReward checkedReward
    have fees := fees_of_loop connected.loop
    rw [Int.zero_add] at fees
    rw [(block_round connected.round).1, fees] at bound
    simpa only [unclaimed, sub_nonneg] using bound

theorem stakeGains_le_unclaimed (connected : BlockConnected env chain prev view state block r s)
    (checked : env.BlockChecked block) (stake : block.isProofOfStake) :
    env.stakeGains r.nHeight view block ≤ env.unclaimed r.nHeight view block := by
  have passed := checked.coinstake stake
  simp only [CheckEnv.checkCoinstake, Util.bind_eq_ok, Util.require_eq_ok] at passed
  obtain ⟨_, empty, _, second, _, _, _, others, _⟩ := passed
  obtain ⟨rest, split, coinbase, _, _, plain⟩ := checked.vtx_eq
  -- the second transaction is the coinstake, the rest are none
  cases rest with
  | nil =>
    rw [split] at second
    cases second
  | cons coinstake rest =>
    have shape : coinstake.isCoinStake := by simpa [split] using second
    have last : ∀ tx ∈ rest, tx.isCoinStake = false := by simpa [split] using others
    have loop := connected.loop
    rw [split, foldlM_cons, Util.bind_eq_ok] at loop
    obtain ⟨s₁, first, loop⟩ := loop
    rw [foldlM_cons, Util.bind_eq_ok] at loop
    obtain ⟨s₂, now, loop⟩ := loop
    have after := txConnected_of_connectTx first
    have reward : s.nActualStakeReward = env.stakeGains r.nHeight view block := by
      have none := sum_stakeGain_eq_zero env.computeHash r.nHeight (fun tx member _ => last tx member)
        ((view.updateCoins env.computeHash block.coinbase r.nHeight).1.updateCoins
          env.computeHash coinstake r.nHeight).1
      rw [stake_of_loop last loop, (txConnected_of_connectTx now).stake, after.view, stakeGains]
      generalize block.coinbase = head at *
      rw [split]
      simp only [sumOver, none, stakeGain, shape, coinbase,
        plain coinstake mem_cons_self, Bool.not_true, Bool.false_and, Bool.not_false,
        Bool.and_self, Bool.false_eq_true, if_true, if_false, Int.zero_add, Int.add_zero]
    have bound := reward_le_of_connected connected
    rw [if_pos stake, reward] at bound
    rw [unclaimed, coinbase_valueOut empty, Int.sub_zero]
    exact bound

/-- A block accepted above the genesis block creates at most the subsidy if it is a proof-of-stake
block, or if none of its transactions but the coinbase has the shape of a coinstake. In a proof-of-work
block the coinbase takes no more than fees and subsidy, and what it leaves is all that bounds the
transactions of that shape. -/
theorem createdValue_le_subsidy_iff {result : Option Connecting} (honest : env.HonestMark block)
    (accepted : env.connectBlock chain prev view state block = .ok result)
    (above : env.hashHeader block.toCBlockHeader ≠ env.params.hashGenesisBlock) :
    (block.isProofOfStake = true ∨
        (∀ tx ∈ block.vtx, tx.isCoinBase = false → tx.isCoinStake = false) →
      block.createdValue env.computeHash (prev.nHeight + 1) view ≤
        getBlockSubsidy (prev.nHeight + 1) env.params) ∧
    (block.isProofOfStake = false → 0 ≤ env.unclaimed (prev.nHeight + 1) view block ∧
      (block.createdValue env.computeHash (prev.nHeight + 1) view ≤
          getBlockSubsidy (prev.nHeight + 1) env.params ↔
        env.stakeGains (prev.nHeight + 1) view block ≤
          env.unclaimed (prev.nHeight + 1) view block)) := by
  rcases connected_of_connectBlock accepted with ⟨_, _, _, genesis, _⟩ | ⟨r, s, connected, _⟩
  · exact absurd genesis above
  have checked := env.blockChecked_of_checkBlock honest connected.checked
  have reward := reward_le_of_connected connected
  rw [createdValue_eq checked, ← (block_round connected.round).2]
  have left (work : block.isProofOfStake = false) : 0 ≤ env.unclaimed r.nHeight view block := by
    rwa [work, if_neg Bool.false_ne_true] at reward
  have enough : env.stakeGains r.nHeight view block ≤ env.unclaimed r.nHeight view block →
      getBlockSubsidy r.nHeight env.params + env.stakeGains r.nHeight view block -
        env.unclaimed r.nHeight view block ≤ getBlockSubsidy r.nHeight env.params := by
    intro bound
    linarith
  refine ⟨fun condition => ?_, fun work => ⟨left work, fun bound => ?_, enough⟩⟩
  · cases stake : block.isProofOfStake with
    | true => exact enough (stakeGains_le_unclaimed connected checked stake)
    | false =>
      have plain := condition.resolve_left (by rw [stake]; exact Bool.false_ne_true)
      refine enough ?_
      rw [stakeGains, sum_stakeGain_eq_zero env.computeHash r.nHeight plain view]
      exact left stake
  · linarith

def mintingTx : CTransaction where
  vin := [⟨⟨7, 0⟩, [], 0⟩]
  vout := [⟨0, []⟩, ⟨1000000 * coin, CScript.payToPubkeyHash 1⟩]

/-- A block with a transaction that leaves a fee creates no more than the subsidy. -/
theorem spendingBlock_creates_subsidy :
    (∃ result, sample.connectBlock [] samplePrev oneCoin {}
      (sample.blockOf [sampleCoinbase, spendingTx]) = .ok result) ∧
    (sample.blockOf [sampleCoinbase, spendingTx]).createdValue sample.computeHash 1000 oneCoin ≤
      getBlockSubsidy 1000 .main := by
  have connects : (sample.connectBlock [] samplePrev oneCoin {}
      (sample.blockOf [sampleCoinbase, spendingTx])).toBool := by decide +kernel
  obtain ⟨result, accepted⟩ := Util.exists_ok connects
  exact ⟨⟨result, accepted⟩, (createdValue_le_subsidy_iff (fun marked => by cases marked) accepted
    (by decide +kernel)).1 (.inr (by decide +kernel))⟩

/-- A proof-of-work block with a transaction in the shape of a coinstake is accepted and creates
almost a million coins beyond the subsidy. -/
theorem mintingBlock_inflates :
    (sample.blockOf [sampleCoinbase, mintingTx]).isProofOfStake = false ∧
    (sample.checkBlock (updateBlockSizeParams 2000000) true true true
      (sample.blockOf [sampleCoinbase, mintingTx])).toBool = true ∧
    (sample.connectBlock [] samplePrev oneCoin {} (sample.blockOf [sampleCoinbase, mintingTx])).toBool =
      true ∧
    (sample.blockOf [sampleCoinbase, mintingTx]).createdValue sample.computeHash 1000 oneCoin =
      getBlockSubsidy 1000 .main + 999999 * coin := by
  refine ⟨?_, ?_, ?_, ?_⟩ <;> decide +kernel

end ConnectEnv
end Artax
