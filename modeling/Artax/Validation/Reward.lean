import Artax.Consensus.Coins
import Artax.Validation.CheckBlock

/-!
# Block rewards

`CheckReward`: the transaction that pays the reward has to pay every gas
refund, must not pay out more than fees and subsidy, and in a mutualised
proof-of-stake block has to pay every recipient its share.
-/

namespace Artax

open Multiset

open Util (require)

/-- The loops of `CheckReward` that look for an output and take it away, `none` where one is
missing. -/
def takeVouts : List CTxOut → List CTxOut → Option (List CTxOut)
  | [], vTempVouts => some vTempVouts
  | txout :: rest, vTempVouts =>
    if txout ∈ vTempVouts then takeVouts rest (vTempVouts.erase txout) else none

theorem takeVouts_of_perm {vouts vTempVouts rest : List CTxOut}
    (present : vTempVouts.Perm (vouts ++ rest)) :
    ∃ left, takeVouts vouts vTempVouts = some left ∧ left.Perm rest := by
  induction vouts generalizing vTempVouts with
  | nil => exact ⟨vTempVouts, rfl, present⟩
  | cons txout vouts ih =>
    have member : txout ∈ vTempVouts := present.mem_iff.2 List.mem_cons_self
    obtain ⟨left, taken, same⟩ := ih (List.cons_perm_iff_perm_erase.1 present.symm).2.symm
    exact ⟨left, by rw [takeVouts, if_pos member, taken], same⟩

theorem takeVouts_append (first second vTempVouts : List CTxOut) :
    takeVouts (first ++ second) vTempVouts = (takeVouts first vTempVouts).bind (takeVouts second) := by
  induction first generalizing vTempVouts with
  | nil => rfl
  | cons txout first ih =>
    rw [List.cons_append, takeVouts, takeVouts]
    split
    · exact ih _
    · rfl

theorem isSome_takeVouts {vouts vTempVouts : List CTxOut} :
    (takeVouts vouts vTempVouts).isSome ↔ (vouts : Multiset CTxOut) ≤ vTempVouts := by
  induction vouts generalizing vTempVouts with
  | nil => exact ⟨fun _ => zero_le _, fun _ => rfl⟩
  | cons txout vouts ih =>
    rw [takeVouts, ← cons_coe]
    split
    · next member =>
      have same : txout ::ₘ (vTempVouts.erase txout : Multiset CTxOut) = vTempVouts :=
        cons_erase (mem_coe.2 member)
      rw [ih, ← same, cons_le_cons_iff]
    · next missing =>
      have absent : ¬txout ::ₘ (vouts : Multiset CTxOut) ≤ vTempVouts := fun contained =>
        missing (mem_of_le contained (mem_cons_self _ _))
      exact ⟨fun found => absurd found (by simp), fun contained => absurd contained absent⟩

structure ChainEntry where
  hash : H256
  isProofOfStake : Bool
  deriving DecidableEq, Repr

abbrev ActiveChain := List ChainEntry

namespace ActiveChain

def height (chain : ActiveChain) : Int := chain.length - 1

def entryAt (chain : ActiveChain) (nHeight : Int) : Option ChainEntry :=
  if nHeight < 0 then none else chain[nHeight.toNat]?

end ActiveChain

def addMPoSScript (chain : ActiveChain) (scriptsMap : Int → Option (H256 × CScript))
    (readStakeIndex : Int → Option Address) (params : ConsensusParams) (nHeight : Int) :
    Option CScript :=
  match chain.entryAt nHeight with
  | none => none
  | some entry =>
    match (scriptsMap nHeight).filter fun cached => cached.1 == entry.hash with
    | some cached => some cached.2
    | none =>
      match readStakeIndex nHeight with
      | none => none
      | some stakeAddress =>
        if entry.isProofOfStake then
          -- the share of a staker that is not known is burnt
          some (if stakeAddress = 0 then [Op.ret] else CScript.payToPubkeyHash stakeAddress)
        else if params.fPoSNoRetargeting then some [Op.ret]
        else none

def collectMPoSScripts (addMPoSScript : Int → Option CScript) : Nat → Int → Option (List CScript)
  | 0, _ => some []
  | count + 1, nHeight =>
    match addMPoSScript nHeight with
    | none => none
    | some script => (collectMPoSScripts addMPoSScript count (nHeight - 1)).map (script :: ·)

/-- `GetMPoSOutputScripts`. -/
def getMPoSOutputScripts (addMPoSScript : Int → Option CScript) (nHeight : Int)
    (params : ConsensusParams) : Option (List CScript) :=
  collectMPoSScripts addMPoSScript (params.nMPoSRewardRecipients - 1) (nHeight - coinbaseMaturity)

def checkStakeReward (params : ConsensusParams) (addMPoSScript : Int → Option CScript)
    (nHeight : Nat) (blockReward gasRefunds nActualStakeReward : CAmount)
    (vTempVouts : List CTxOut) : Except Rejection Unit := do
  require (!decide (blockReward < nActualStakeReward)) ⟨100, "bad-cs-amount"⟩
  let nPrevHeight : Int := nHeight - 1
  let rewardRecipients := if params.nFirstMPoSBlock ≤ nPrevHeight then params.nMPoSRewardRecipients else 1
  require (decide (1 ≤ rewardRecipients)) ⟨0, ""⟩
  if rewardRecipients = 1 then .ok ()
  else do
    require (!decide (blockReward < gasRefunds)) ⟨100, "bad-cs-gas-greater-than-reward"⟩
    let splitReward := (blockReward - gasRefunds).tdiv rewardRecipients
    match getMPoSOutputScripts addMPoSScript nPrevHeight params with
    | none => .error ⟨0, ""⟩
    | some mposScriptList =>
      require (takeVouts (mposScriptList.map (⟨splitReward, ·⟩)) vTempVouts).isSome
        ⟨100, "bad-cs-mpos-missing"⟩

def CBlock.rewardTx (block : CBlock) : CTransaction :=
  if block.isProofOfStake then block.coinstake else block.coinbase

/-- `CheckReward`. -/
def checkReward (params : ConsensusParams) (addMPoSScript : Int → Option CScript) (block : CBlock)
    (nHeight : Nat) (nFees gasRefunds nActualStakeReward : CAmount) (vouts : List CTxOut) :
    Except Rejection Unit :=
  match takeVouts vouts block.rewardTx.vout with
  | none => .error ⟨100, ""⟩
  | some vTempVouts =>
    let blockReward := nFees + getBlockSubsidy nHeight params
    if block.isProofOfWork then do
      let paid ← block.rewardTx.valueOutOrThrow
      require (!decide (blockReward < paid)) ⟨100, "bad-cb-amount"⟩
    else checkStakeReward params addMPoSScript nHeight blockReward gasRefunds nActualStakeReward
      vTempVouts

/-- The reward is bounded by fees and subsidy: what the coinbase pays in a proof-of-work block, what
the coinstake adds in a proof-of-stake block. -/
theorem reward_le_of_checkReward {params : ConsensusParams} {addMPoSScript : Int → Option CScript}
    {block : CBlock} {nHeight : Nat} {nFees gasRefunds nActualStakeReward : CAmount}
    {vouts : List CTxOut} (passed : checkReward params addMPoSScript block nHeight nFees gasRefunds
      nActualStakeReward vouts = .ok ()) :
    if block.isProofOfStake then nActualStakeReward ≤ nFees + getBlockSubsidy nHeight params
    else block.coinbase.valueOut ≤ nFees + getBlockSubsidy nHeight params := by
  unfold checkReward at passed
  cases taken : takeVouts vouts block.rewardTx.vout with
  | none =>
    rw [taken] at passed
    cases passed
  | some left =>
    rw [taken] at passed
    cases stake : block.isProofOfStake with
    | true =>
      simp only [CBlockHeader.isProofOfWork, stake, Bool.not_true, Bool.false_eq_true, if_false,
        checkStakeReward, Util.bind_eq_ok, Util.require_eq_ok] at passed
      obtain ⟨_, bound, _⟩ := passed
      simpa using bound
    | false =>
      simp only [CBlock.rewardTx, CBlockHeader.isProofOfWork, stake, Bool.not_false, if_true,
        Bool.false_eq_true, if_false, Util.bind_eq_ok, Util.require_eq_ok, CTransaction.valueOutOrThrow_eq_ok] at passed
      obtain ⟨paid, returned, bound⟩ := passed
      rw [← CTransaction.valueOut_of_getValueOut returned]
      simpa using bound

section Contained

variable {params : ConsensusParams} {addMPoSScript : Int → Option CScript} {block : CBlock}
  {nHeight : Nat} {nFees gasRefunds nActualStakeReward : CAmount} {vouts : List CTxOut}

def mposOutputs (params : ConsensusParams) (unrefunded : CAmount) (scripts : List CScript) :
    List CTxOut :=
  scripts.map fun script => ⟨unrefunded / params.nMPoSRewardRecipients, script⟩

theorem checkReward_eq_ok (staked : block.isProofOfStake)
    (mutualised : (params.nFirstMPoSBlock : Int) ≤ nHeight - 1)
    (recipients : 1 < params.nMPoSRewardRecipients) :
    checkReward params addMPoSScript block nHeight nFees gasRefunds nActualStakeReward vouts = .ok () ↔
      nActualStakeReward ≤ nFees + getBlockSubsidy nHeight params ∧
      gasRefunds ≤ nFees + getBlockSubsidy nHeight params ∧
      ∃ scripts, getMPoSOutputScripts addMPoSScript (nHeight - 1) params = some scripts ∧
        ((vouts : Multiset CTxOut) +
          mposOutputs params (nFees + getBlockSubsidy nHeight params - gasRefunds) scripts) ≤
            block.coinstake.vout := by
  simp only [coe_add, ← isSome_takeVouts, takeVouts_append]
  have reward : block.rewardTx = block.coinstake := by simp [CBlock.rewardTx, staked]
  have share (rest : CAmount) (positive : 0 ≤ rest) :
      rest.tdiv params.nMPoSRewardRecipients = rest / params.nMPoSRewardRecipients :=
    Int.tdiv_eq_ediv_of_nonneg positive
  simp only [checkReward, reward, CBlockHeader.isProofOfWork, staked, Bool.not_true,
    Bool.false_eq_true, if_false]
  cases takeVouts vouts block.coinstake.vout with
  | none => simp
  | some left =>
    simp only [checkStakeReward, Util.bind_eq_ok, Util.require_eq_ok, if_pos mutualised,
      if_neg (show params.nMPoSRewardRecipients ≠ 1 by omega), Option.bind_some, mposOutputs]
    cases getMPoSOutputScripts addMPoSScript (nHeight - 1) params with
    | none => simp
    | some scripts =>
      simp only [Util.require_eq_ok, Option.some.injEq, exists_eq_left', Bool.not_eq_true',
        decide_eq_false_iff_not, not_lt, decide_eq_true_eq, exists_const]
      constructor
      · rintro ⟨bound, -, enough, taken⟩
        exact ⟨bound, enough, by rwa [← share _ (Int.sub_nonneg.2 enough)]⟩
      · rintro ⟨bound, enough, taken⟩
        exact ⟨bound, by omega, enough, by rwa [share _ (Int.sub_nonneg.2 enough)]⟩

/-- In a mutualised block the reward is accepted exactly when it is bounded by fees and subsidy,
these cover the refunds, the recipients are known, and refunds and shares together are contained in
the outputs, in whatever order. -/
theorem reward_accepted_iff_contained (staked : block.isProofOfStake = true)
    (mutualised : (params.nFirstMPoSBlock : Int) ≤ nHeight - 1)
    (recipients : 1 < params.nMPoSRewardRecipients) :
    (checkReward params addMPoSScript block nHeight nFees gasRefunds nActualStakeReward vouts =
        .ok () ↔
      nActualStakeReward ≤ nFees + getBlockSubsidy nHeight params ∧
      gasRefunds ≤ nFees + getBlockSubsidy nHeight params ∧
      ∃ scripts, getMPoSOutputScripts addMPoSScript (nHeight - 1) params = some scripts ∧
        ((vouts : Multiset CTxOut) +
          mposOutputs params (nFees + getBlockSubsidy nHeight params - gasRefunds) scripts) ≤
            block.coinstake.vout) ∧
    ∀ (reordered : CBlock) (vouts' : List CTxOut) (addMPoSScript' : Int → Option CScript),
      reordered.isProofOfStake = true → reordered.coinstake.vout.Perm block.coinstake.vout →
      vouts'.Perm vouts →
      Option.Rel List.Perm (getMPoSOutputScripts addMPoSScript' (nHeight - 1) params)
        (getMPoSOutputScripts addMPoSScript (nHeight - 1) params) →
      (checkReward params addMPoSScript' reordered nHeight nFees gasRefunds nActualStakeReward
          vouts' = .ok () ↔
        checkReward params addMPoSScript block nHeight nFees gasRefunds nActualStakeReward vouts =
          .ok ()) := by
  refine ⟨checkReward_eq_ok staked mutualised recipients, ?_⟩
  intro reordered vouts' addMPoSScript' staked' outputs refunds scripts
  rw [checkReward_eq_ok staked mutualised recipients, checkReward_eq_ok staked' mutualised recipients,
    coe_eq_coe.2 outputs, coe_eq_coe.2 refunds]
  generalize getMPoSOutputScripts addMPoSScript' (nHeight - 1) params = found' at scripts
  generalize getMPoSOutputScripts addMPoSScript (nHeight - 1) params = found at scripts
  cases scripts with
  | none => rfl
  | @some listed' listed same =>
    have shares (rest : CAmount) : (mposOutputs params rest listed' : Multiset CTxOut) =
        mposOutputs params rest listed := coe_eq_coe.2 (same.map _)
    simp only [Option.some.injEq, exists_eq_left', shares]

def sharedReward : CBlock where
  nVersion := 4
  hashPrevBlock := 0
  hashMerkleRoot := 0
  nTime := 0
  nBits := 0
  nNonce := 0
  hashStateRoot := 0
  hashUTXORoot := 0
  prevoutStake := ⟨1, 0⟩
  vchBlockSig := []
  vtx := [{}, { vout := List.replicate 9 ⟨40000009, []⟩ ++ [⟨10, []⟩] }]

/-- With fees of 100 at height 7000 of the main network, that is what has to be paid. -/
theorem sharedReward_accepted :
    checkReward .main (fun _ => some []) sharedReward 7000 100 10 0 [⟨10, []⟩] = .ok () :=
  (reward_accepted_iff_contained (by decide) (by decide) (by decide)).1.2
    ⟨by decide, by decide, List.replicate 9 [], by decide +kernel, by decide +kernel⟩

end Contained

end Artax
