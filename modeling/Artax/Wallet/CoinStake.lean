import Artax.Aal.ByteCodeExec
import Artax.Validation.Reward

/-!
# Making a coinstake

`CWallet::CreateCoinStake` with the template that the block assembler hands to
it, and that `CheckReward` accepts what it makes. The coins of the wallet, the
stake kernel and the signatures are parameters.
-/

namespace Artax

open List

def getStakeMaxCombineInputs : Nat := 100

def getStakeCombineThreshold : CAmount := 100 * coin

def getStakeSplitOutputs : Nat := 2

def getStakeSplitThreshold : CAmount := getStakeSplitOutputs * getStakeCombineThreshold

structure StakeWallet where
  nBalance : CAmount
  reserveBalance : CAmount
  selectCoins : CAmount → Option (List COutPoint)
  txOut : COutPoint → CTxOut
  checkKernel : COutPoint → Bool
  hash160 : Bytes → Address
  getKey : Address → Option Bytes
  signSignature : CTxOut → CTransaction → Nat → Option CScript

namespace StakeWallet

variable (wallet : StakeWallet)

def valueIn (tx : CTransaction) : CAmount :=
  (tx.vin.map fun txin => (wallet.txOut txin.prevout).nValue).sum

/-- The output script for a kernel, and the public key it pays to: only kernels that pay to a public
key or to its hash are supported. -/
def scriptPubKeyOut (scriptPubKeyKernel : CScript) : Option (CScript × Bytes) :=
  match solver false scriptPubKeyKernel with
  | some (.pubkeyHash, hash :: _) =>
    (wallet.getKey (Address.ofBytes hash)).map fun key => (CScript.pushData key ++ [Op.checkSig], key)
  | some (.pubkey, vchPubKey :: _) =>
    match wallet.getKey (wallet.hash160 vchPubKey) with
    | some key => if key = vchPubKey then some (scriptPubKeyKernel, key) else none
    | none => none
  | _ => none

def combineCoins (kernel : COutPoint) (script : CScript) :
    List COutPoint → List COutPoint → CAmount → List COutPoint × CAmount
  | [], vin, nCredit => (vin, nCredit)
  | pcoin :: rest, vin, nCredit =>
    let txout := wallet.txOut pcoin
    if (txout.scriptPubKey = (wallet.txOut kernel).scriptPubKey ∨ txout.scriptPubKey = script) ∧
        pcoin.hash ≠ kernel.hash then
      if getStakeMaxCombineInputs ≤ vin.length then (vin, nCredit)
      else if wallet.nBalance - wallet.reserveBalance < nCredit + txout.nValue then (vin, nCredit)
      else if getStakeCombineThreshold ≤ txout.nValue then combineCoins kernel script rest vin nCredit
      else combineCoins kernel script rest (vin ++ [pcoin]) (nCredit + txout.nValue)
    else combineCoins kernel script rest vin nCredit

def signInputs : List COutPoint → Nat → CTransaction → Option CTransaction
  | [], _, txNew => some txNew
  | pcoin :: rest, nIn, txNew =>
    match wallet.signSignature (wallet.txOut pcoin) txNew nIn with
    | none => none
    | some scriptSig =>
      signInputs rest (nIn + 1)
        { txNew with vin := txNew.vin.modify nIn fun txin => { txin with scriptSig } }

end StakeWallet

/-- What the staker adds to its stake and what each other recipient gets. `none` where the reward is
negative, or divided among no recipients. -/
def splitStakeReward (params : ConsensusParams) (nPrevHeight : Nat) (nTotalFees : CAmount) :
    Option (CAmount × CAmount) :=
  let nReward := nTotalFees + getBlockSubsidy (nPrevHeight + 1) params
  if nReward < 0 then none
  else if nPrevHeight < params.nFirstMPoSBlock then some (nReward, 0)
  else if params.nMPoSRewardRecipients = 0 then none
  else
    let nRewardPiece := nReward.tdiv params.nMPoSRewardRecipients
    some (nRewardPiece + nReward.tmod params.nMPoSRewardRecipients, nRewardPiece)

def stakeOutputs (script : CScript) (nCredit : CAmount) : List CTxOut :=
  let count := if getStakeSplitThreshold ≤ nCredit then getStakeSplitOutputs else 1
  if count = getStakeSplitOutputs then
    let nValue := ((nCredit.tdiv getStakeSplitOutputs).tdiv cent) * cent
    List.replicate (getStakeSplitOutputs - 1) ⟨nValue, script⟩ ++
      [⟨nCredit - nValue * (getStakeSplitOutputs - 1), script⟩]
  else [⟨nCredit, script⟩]

/-- `CreateMPoSOutputs`. -/
def createMPoSOutputs (params : ConsensusParams) (addMPoSScript : Int → Option CScript)
    (nHeight : Nat) (nRewardPiece : CAmount) : Option (List CTxOut) :=
  (getMPoSOutputScripts addMPoSScript nHeight params).map fun mposScriptList =>
    mposScriptList.map (⟨nRewardPiece, ·⟩)

def rewardOutputs (params : ConsensusParams) (addMPoSScript : Int → Option CScript)
    (nPrevHeight : Nat) (nRewardPiece : CAmount) : Option (List CTxOut) :=
  if params.nFirstMPoSBlock ≤ nPrevHeight
  then createMPoSOutputs params addMPoSScript nPrevHeight nRewardPiece
  else some []

/-- `CWallet::CreateCoinStake`. -/
def StakeWallet.createCoinStake (wallet : StakeWallet) (params : ConsensusParams)
    (addMPoSScript : Int → Option CScript) (nPrevHeight : Nat) (nTotalFees : CAmount)
    (tx : CTransaction) : Option (CTransaction × Bytes) := do
  guard (wallet.reserveBalance < wallet.nBalance)
  let setCoins ← wallet.selectCoins (wallet.nBalance - wallet.reserveBalance)
  -- the search ends at the first kernel, whether it can be used or not
  let kernel ← setCoins.find? wallet.checkKernel
  let (script, key) ← wallet.scriptPubKeyOut (wallet.txOut kernel).scriptPubKey
  let kernelValue := (wallet.txOut kernel).nValue
  guard (kernelValue ≠ 0 ∧ kernelValue ≤ wallet.nBalance - wallet.reserveBalance)
  let (vin, nCredit) := wallet.combineCoins kernel script setCoins [kernel] kernelValue
  let (kept, nRewardPiece) ← splitStakeReward params nPrevHeight nTotalFees
  let mpos ← rewardOutputs params addMPoSScript nPrevHeight nRewardPiece
  let txNew ← wallet.signInputs vin 0 { tx with
    vin := vin.map fun pcoin => ⟨pcoin, [], 0xffffffff⟩
    vout := ⟨0, []⟩ :: stakeOutputs script (nCredit + kept) ++ mpos ++ tx.vout.drop 2 }
  some (txNew, key)

def coinstakeTemplate (scriptPubKeyIn : CScript) : CTransaction where
  vout := [⟨0, []⟩, ⟨-1, scriptPubKeyIn⟩]

/-- `BlockAssembler::RebuildRefundTransaction`: the transaction that pays the reward of a template,
with the refunds appended. -/
def rebuildRefundTransaction (params : ConsensusParams) (nHeight : Nat) (fProofOfStake : Bool)
    (nFees : CAmount) (bceResult : ByteCodeExecResult) (originalRewardTx : CTransaction) :
    CTransaction :=
  { originalRewardTx with
    vout := (originalRewardTx.vout.modify (if fProofOfStake then 1 else 0) fun txout =>
      { txout with nValue := nFees + getBlockSubsidy nHeight params - bceResult.refundSender }) ++
        bceResult.refundOutputs }

theorem drop_rebuildRefundTransaction (params : ConsensusParams) (nHeight : Nat) (nFees : CAmount)
    (bceResult : ByteCodeExecResult) (scriptPubKeyIn : CScript) :
    (rebuildRefundTransaction params nHeight true nFees bceResult
      (coinstakeTemplate scriptPubKeyIn)).vout.drop 2 = bceResult.refundOutputs :=
  rfl

namespace StakeWallet

variable {wallet : StakeWallet}

theorem vout_signInputs {coins : List COutPoint} {nIn : Nat} {txNew signed : CTransaction}
    (done : wallet.signInputs coins nIn txNew = some signed) :
    signed.vout = txNew.vout ∧ wallet.valueIn signed = wallet.valueIn txNew := by
  induction coins generalizing nIn txNew with
  | nil =>
    cases done
    exact ⟨rfl, rfl⟩
  | cons pcoin rest ih =>
    rw [signInputs] at done
    split at done
    · cases done
    · obtain ⟨vout, value⟩ := ih done
      refine ⟨vout, value.trans ?_⟩
      simp only [valueIn]
      congr 1
      apply ext_getElem? fun i => ?_
      simp only [getElem?_map, getElem?_modify]
      split_ifs <;> simp [Function.comp_def]

theorem credit_combineCoins {kernel : COutPoint} {script : CScript} {coins vin vin' : List COutPoint}
    {nCredit nCredit' : CAmount}
    (combined : wallet.combineCoins kernel script coins vin nCredit = (vin', nCredit'))
    (before : nCredit = (vin.map fun pcoin => (wallet.txOut pcoin).nValue).sum) :
    nCredit' = (vin'.map fun pcoin => (wallet.txOut pcoin).nValue).sum := by
  induction coins generalizing vin nCredit with
  | nil =>
    cases combined
    exact before
  | cons pcoin rest ih =>
    simp only [combineCoins] at combined
    split_ifs at combined
    · cases combined
      exact before
    · cases combined
      exact before
    · exact ih combined before
    · exact ih combined (by simp [before])
    · exact ih combined before

end StakeWallet

theorem sum_stakeOutputs (script : CScript) (nCredit : CAmount) :
    ((stakeOutputs script nCredit).map CTxOut.nValue).sum = nCredit := by
  unfold stakeOutputs
  simp only
  split_ifs with _ many
  · simp [getStakeSplitOutputs]
  · simp
  · simp [getStakeSplitOutputs]
  · simp

theorem length_collectMPoSScripts {addMPoSScript : Int → Option CScript} {count : Nat}
    {nHeight : Int} {scripts : List CScript}
    (collected : collectMPoSScripts addMPoSScript count nHeight = some scripts) :
    scripts.length = count := by
  induction count generalizing nHeight scripts with
  | zero =>
    cases collected
    rfl
  | succ count ih =>
    rw [collectMPoSScripts] at collected
    split at collected
    · cases collected
    · obtain ⟨rest, found, rfl⟩ := Option.map_eq_some_iff.1 collected
      simp [ih found]

section Reward

variable {params : ConsensusParams} {addMPoSScript : Int → Option CScript} {nPrevHeight : Nat}

/-- The reward is divided without a remainder: what the staker keeps and the outputs for the others
add up to it. -/
theorem sum_rewardOutputs {nTotalFees kept nRewardPiece : CAmount} {mpos : List CTxOut}
    (divided : splitStakeReward params nPrevHeight nTotalFees = some (kept, nRewardPiece))
    (paid : rewardOutputs params addMPoSScript nPrevHeight nRewardPiece = some mpos) :
    kept + (mpos.map CTxOut.nValue).sum = nTotalFees + getBlockSubsidy (nPrevHeight + 1) params := by
  simp only [splitStakeReward] at divided
  split_ifs at divided with negative early none
  · cases divided
    rw [rewardOutputs, if_neg (Nat.not_le.2 early)] at paid
    cases paid
    simp
  · cases divided
    rw [rewardOutputs, if_pos (Nat.not_lt.1 early), createMPoSOutputs] at paid
    obtain ⟨scripts, found, rfl⟩ := Option.map_eq_some_iff.1 paid
    have count := length_collectMPoSScripts found
    generalize nTotalFees + getBlockSubsidy (nPrevHeight + 1) params = nReward
    have division := Int.mul_tdiv_add_tmod nReward params.nMPoSRewardRecipients
    have shares : ((scripts.map fun script =>
        (⟨nReward.tdiv params.nMPoSRewardRecipients, script⟩ : CTxOut)).map CTxOut.nValue).sum =
        (params.nMPoSRewardRecipients - 1) * nReward.tdiv params.nMPoSRewardRecipients := by
      rw [map_map, Function.comp_def, map_const', sum_replicate, count, nsmul_eq_mul,
        Int.natCast_pred_of_pos (Nat.pos_of_ne_zero none)]
    rw [shares]
    linarith

theorem checkReward_of_vout {seen : Int → Option CScript} {block : CBlock}
    {nFees gasRefunds nActualStakeReward kept nRewardPiece : CAmount}
    {stake mpos refunds : List CTxOut} (proof : block.isProofOfStake)
    (vout : block.coinstake.vout = stake ++ mpos ++ refunds)
    (reward : nActualStakeReward = nFees + getBlockSubsidy (nPrevHeight + 1) params)
    (same : getMPoSOutputScripts addMPoSScript nPrevHeight params =
      getMPoSOutputScripts seen nPrevHeight params)
    (divided : splitStakeReward params nPrevHeight (nFees - gasRefunds) = some (kept, nRewardPiece))
    (paid : rewardOutputs params addMPoSScript nPrevHeight nRewardPiece = some mpos) :
    checkReward params seen block (nPrevHeight + 1) nFees gasRefunds nActualStakeReward refunds =
      .ok () := by
  have present : block.coinstake.vout.Perm (refunds ++ (mpos ++ stake)) := by
    rw [vout]
    exact perm_append_comm.trans (perm_append_comm.append_left refunds)
  obtain ⟨left, taken, others⟩ := takeVouts_of_perm present
  obtain ⟨_, found, _⟩ := takeVouts_of_perm others
  have height : ((nPrevHeight + 1 : Nat) : Int) - 1 = nPrevHeight := by
    rw [Int.natCast_succ, Int.add_sub_cancel]
  have enough : nFees + getBlockSubsidy (nPrevHeight + 1) params - gasRefunds =
      nFees - gasRefunds + getBlockSubsidy (nPrevHeight + 1) params := by linarith
  have pow : block.isProofOfWork = false := by simp [CBlockHeader.isProofOfWork, proof]
  simp only [checkReward, CBlock.rewardTx, proof, if_true, taken, pow, Bool.false_eq_true, if_false,
    checkStakeReward, height, reward, lt_irrefl, decide_false, Bool.not_false]
  simp only [splitStakeReward] at divided
  split_ifs at divided with negative early none
  · rw [if_neg (by omega)]
    rfl
  · cases divided
    rw [rewardOutputs, if_pos (Nat.not_lt.1 early), createMPoSOutputs, same] at paid
    obtain ⟨scripts, listed, rfl⟩ := Option.map_eq_some_iff.1 paid
    rw [if_pos (by omega)]
    by_cases one : params.nMPoSRewardRecipients = 1
    · simp [one]
    · have bound : ¬ nFees + getBlockSubsidy (nPrevHeight + 1) params < gasRefunds := by linarith
      have some : 1 ≤ params.nMPoSRewardRecipients := Nat.pos_of_ne_zero none
      simp only [one, if_false, some, bound, decide_true, decide_false, Bool.not_false, listed, enough,
        found, Option.isSome_some]
      rfl

/-- The coinstake of `CreateCoinStake` on a template with the refunds pays out exactly fees and
subsidy beyond what it spends, and `CheckReward` accepts it. -/
theorem coinstake_pays_reward {wallet : StakeWallet} {template tx : CTransaction} {key : Bytes}
    {seen : Int → Option CScript} {nFees refundSender : CAmount} {refundOutputs : List CTxOut}
    (total : (refundOutputs.map CTxOut.nValue).sum = refundSender)
    (carries : template.vout.drop 2 = refundOutputs)
    (same : getMPoSOutputScripts addMPoSScript nPrevHeight params =
      getMPoSOutputScripts seen nPrevHeight params)
    (created : wallet.createCoinStake params addMPoSScript nPrevHeight (nFees - refundSender) template =
      some (tx, key)) :
    tx.valueOut - wallet.valueIn tx = nFees + getBlockSubsidy (nPrevHeight + 1) params ∧
      ∀ block : CBlock, block.isProofOfStake = true → block.coinstake = tx →
        checkReward params seen block (nPrevHeight + 1) nFees refundSender
          (tx.valueOut - wallet.valueIn tx) refundOutputs = .ok () := by
  simp only [StakeWallet.createCoinStake, Option.bind_eq_bind, Option.bind_eq_some_iff, Prod.exists,
    Option.some.injEq, Prod.mk.injEq] at created
  obtain ⟨_, _, setCoins, _, kernel, _, script, _, _, _, _, kept, nRewardPiece, divided, mpos, paid,
    txNew, signed, rfl, rfl⟩ := created
  rcases combined : wallet.combineCoins kernel script setCoins [kernel] (wallet.txOut kernel).nValue
    with ⟨vin, nCredit⟩
  rw [combined, carries] at signed
  obtain ⟨vout, value⟩ := StakeWallet.vout_signInputs signed
  have credit := StakeWallet.credit_combineCoins combined (by simp)
  have reward := sum_rewardOutputs divided paid
  have balance : txNew.valueOut - wallet.valueIn txNew =
      nFees + getBlockSubsidy (nPrevHeight + 1) params := by
    rw [CTransaction.valueOut, vout, value, StakeWallet.valueIn]
    simp only [map_cons, map_append, sum_cons, sum_append, sum_stakeOutputs,
      map_map, Function.comp_def, total, ← credit]
    linarith
  refine ⟨balance, fun block proof coinstake => ?_⟩
  exact checkReward_of_vout proof (by rw [coinstake, vout]) balance same divided paid

def sampleWallet : StakeWallet where
  nBalance := 300 * coin
  reserveBalance := 0
  selectCoins := fun _ => some [⟨9, 0⟩]
  txOut := fun _ => ⟨300 * coin, CScript.pushData (2 :: List.replicate 32 1) ++ [Op.checkSig]⟩
  checkKernel := fun _ => true
  hash160 := fun _ => 7
  getKey := fun _ => some (2 :: List.replicate 32 1)
  signSignature := fun _ _ _ => some [1]

def sampleRefunds : ByteCodeExecResult where
  refundSender := 400
  refundOutputs := [⟨400, CScript.payToPubkeyHash 1⟩]

/-- The coinstake for a block with several recipients, fees of 1000 satoshis and a refund. -/
theorem sampleWallet_pays_reward :
    ∃ tx key, sampleWallet.createCoinStake .main (fun _ => some [Op.ret]) 7000 (1000 - 400)
      (rebuildRefundTransaction .main 7001 true 1000 sampleRefunds (coinstakeTemplate [])) =
        some (tx, key) ∧
      tx.valueOut - sampleWallet.valueIn tx = 1000 + getBlockSubsidy 7001 .main := by
  have succeeds : (sampleWallet.createCoinStake .main (fun _ => some [Op.ret]) 7000 (1000 - 400)
      (rebuildRefundTransaction .main 7001 true 1000 sampleRefunds (coinstakeTemplate []))).isSome =
        true := by decide +kernel
  have total : (sampleRefunds.refundOutputs.map CTxOut.nValue).sum = 400 := by decide
  have carries := drop_rebuildRefundTransaction .main 7001 1000 sampleRefunds []
  obtain ⟨⟨tx, key⟩, created⟩ := Option.isSome_iff_exists.1 succeeds
  exact ⟨tx, key, created, (coinstake_pays_reward total carries rfl created).1⟩

end Reward
end Artax
