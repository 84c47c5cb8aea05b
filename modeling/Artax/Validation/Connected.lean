import Artax.Aal.Mirror
import Artax.Validation.ConnectBlock

/-!
# What a connected block has passed

The checks of `ConnectBlock` taken apart once: what one round of its loop
leaves, and what an accepted block has passed.
-/

namespace Artax

open CTransaction CScript

def CTransaction.isExecuted (tx : CTransaction) : Bool := tx.hasCreateOrCall && !tx.hasOpSpend

def CoinsView.countedFee (view : CoinsView) (tx : CTransaction) : CAmount :=
  if tx.isCoinBase || tx.isCoinStake then 0 else view.valueOf tx.vin - tx.valueOut

namespace ConnectEnv

variable {env : ConnectEnv} {r : Round} {s s' : Connecting} {tx : CTransaction} {state : ArtaxState}
  {chain : ActiveChain} {block : CBlock}

theorem executeContract_eq_ok {ctx : ExecutionContext} {info : EnvInfo}
    {txs : List ArtaxTransaction} {after : ArtaxState} {bcer : ByteCodeExecResult}
    (ran : executeContract ctx info txs state = .ok (after, bcer)) :
    ∃ results, ByteCodeExec.performByteCode ctx info .committed txs state [] =
        some (true, after, results) ∧
      ByteCodeExec.processingResults ctx (txs.zip results) {} = some bcer := by
  unfold executeContract at ran
  split at ran
  · rename_i results performed
    split at ran
    · rename_i processed
      cases ran
      exact ⟨results, performed, processed⟩
    · cases ran
  · cases ran

/-- What executing a contract transaction adds to the block that the node expects. -/
structure Executed (env : ConnectEnv) (r : Round) (s : Connecting) (tx : CTransaction)
    (txs : List ArtaxTransaction) (bcer : ByteCodeExecResult) (s' : Connecting) : Prop where
  decoded : env.checkContract r.minGasPrice r.blockGasLimit s.view r.block tx = .ok txs
  ran : executeContract r.ctx r.info txs s.state = .ok (s'.state, bcer)
  refunds : s'.gasRefunds = s.gasRefunds + (bcer.refundOutputs.map CTxOut.nValue).sum
  vouts : s'.checkVouts = s.checkVouts ++ bcer.refundOutputs
  vtx : s'.checkVtx = s.checkVtx ++ [tx] ++ bcer.valueTransfers

structure Unexecuted (s : Connecting) (tx : CTransaction) (s' : Connecting) : Prop where
  state : s'.state = s.state
  refunds : s'.gasRefunds = s.gasRefunds
  vouts : s'.checkVouts = s.checkVouts
  vtx : s'.checkVtx = s.checkVtx ++ if tx.hasOpSpend then [] else [tx]

structure TxConnected (env : ConnectEnv) (r : Round) (s : Connecting) (tx : CTransaction)
    (s' : Connecting) : Prop where
  view : s'.view = (s.view.updateCoins env.computeHash tx r.nHeight).1
  undo : s'.vtxundo = s.vtxundo ++ [(s.view.updateCoins env.computeHash tx r.nHeight).2]
  inputs : tx.isCoinBase = false → ∃ txfee, tx.checkTxInputs s.view r.nHeight = .ok txfee
  fees : s'.nFees = s.nFees + s.view.countedFee tx
  spends : tx.isCoinBase = false → checkContractSpends s.view tx = .ok ()
  stake : s'.nActualStakeReward = if !tx.isCoinBase && tx.isCoinStake
    then tx.valueOut - s.view.valueOf tx.vin else s.nActualStakeReward
  executed : tx.isExecuted = true → ∃ txs bcer, Executed env r s tx txs bcer s'
  unexecuted : tx.isExecuted = false → Unexecuted s tx s'

theorem countedFee_of_checkFee {txfee : CAmount}
    (passed : env.checkFee r s tx = .ok txfee) :
    txfee = s.view.countedFee tx ∧
      (tx.isCoinBase = false → tx.checkTxInputs s.view r.nHeight = .ok txfee) := by
  unfold CoinsView.countedFee
  unfold checkFee at passed
  cases coinbase : tx.isCoinBase with
  | true =>
    simp only [coinbase, if_true, Except.ok.injEq] at passed
    simp [← passed]
  | false =>
    simp only [coinbase, Bool.false_eq_true, if_false, Util.bind_eq_ok] at passed
    obtain ⟨fee, inputs, _, _, _, _, same⟩ := passed
    cases same
    exact ⟨by simpa using fee_of_checkTxInputs inputs, fun _ => inputs⟩

theorem txConnected_of_connectTx (passed : env.connectTx r s tx = .ok s') :
    TxConnected env r s tx s' := by
  simp only [connectTx, Util.bind_eq_ok] at passed
  obtain ⟨middle, inputs, after, contract, last⟩ := passed
  cases last
  simp only [connectInputs, Util.bind_eq_ok, Util.whenever_eq_ok, Bool.not_eq_true',
    valueOutOrThrow_eq_ok] at inputs
  obtain ⟨txfee, fee, _, _, _, _, _, spends, value, returned, same⟩ := inputs
  cases same
  obtain ⟨rfl, checked⟩ := countedFee_of_checkFee fee
  obtain rfl := valueOut_of_getValueOut returned
  have stake : (if (!tx.isCoinBase && tx.isCoinStake) = true
      then tx.valueOut - s.view.getValueIn tx else s.nActualStakeReward) =
      if (!tx.isCoinBase && tx.isCoinStake) = true then tx.valueOut - s.view.valueOf tx.vin
      else s.nActualStakeReward := by
    cases coinbase : tx.isCoinBase <;> simp [CoinsView.getValueIn, coinbase]
  unfold connectContract at contract
  cases executes : tx.hasCreateOrCall && !tx.hasOpSpend with
  | true =>
    rw [if_pos executes] at contract
    simp only [Util.bind_eq_ok] at contract
    obtain ⟨txs, decoded, ⟨state, bcer⟩, ran, _, _, same⟩ := contract
    cases same
    have plain : tx.hasOpSpend = false := by
      simpa using (Bool.and_eq_true_iff.1 executes).2
    refine ⟨rfl, rfl, fun plain => ⟨_, checked plain⟩, rfl, spends, stake, fun _ => ?_, fun not => ?_⟩
    · exact ⟨txs, bcer, decoded, ran, rfl, rfl, by simp [plain]⟩
    · rw [isExecuted, executes] at not
      cases not
  | false =>
    rw [if_neg (Bool.eq_false_iff.1 executes)] at contract
    cases contract
    refine ⟨rfl, rfl, fun plain => ⟨_, checked plain⟩, rfl, spends, stake, fun yes => ?_, fun _ => ?_⟩
    · rw [isExecuted, executes] at yes
      cases yes
    · refine ⟨rfl, rfl, rfl, ?_⟩
      by_cases spend : tx.hasOpSpend = true <;> simp [spend]

/-- What an accepted block has passed, with the state of the loop after its last round. -/
structure BlockConnected (env : ConnectEnv) (chain : ActiveChain) (prev : PrevIndex)
    (view : CoinsView) (state : ArtaxState) (block : CBlock) (r : Round) (s : Connecting) : Prop where
  round : env.round chain (prev.nHeight + 1) state block = some r
  checked : env.checkBlock r.limits true true true block = .ok ()
  proof : env.updateHashProof r.nHeight view block = .ok ()
  loop : block.vtx.foldlM (env.connectTx r) { view, state } = .ok s
  concluded : env.concludeBlock chain r prev s = .ok ()

theorem block_round {nHeight : Nat} (found : env.round chain nHeight state block = some r) :
    r.block = block ∧ r.nHeight = nHeight := by
  unfold round at found
  split at found
  · cases found
    exact ⟨rfl, rfl⟩
  · cases found

theorem connected_of_connectBlock {prev : PrevIndex} {view : CoinsView} {result : Option Connecting}
    (accepted : env.connectBlock chain prev view state block = .ok result) :
    (∃ r, env.round chain (prev.nHeight + 1) state block = some r ∧
        env.checkBlock r.limits true true true block = .ok () ∧
        env.hashHeader block.toCBlockHeader = env.params.hashGenesisBlock ∧ result = none) ∨
      ∃ r s, BlockConnected env chain prev view state block r s ∧ result = some s := by
  unfold connectBlock at accepted
  cases found : env.round chain (prev.nHeight + 1) state block with
  | none =>
    rw [found] at accepted
    cases accepted
  | some r =>
    rw [found] at accepted
    simp only [Util.bind_eq_ok, checkBeforeCoins] at accepted
    obtain ⟨_, ⟨_, _, _, _, checked⟩, rest⟩ := accepted
    rw [(block_round found).1] at checked
    by_cases genesis : env.hashHeader block.toCBlockHeader = env.params.hashGenesisBlock
    · rw [if_pos genesis] at rest
      cases rest
      exact .inl ⟨r, rfl, checked, genesis, rfl⟩
    · rw [if_neg genesis] at rest
      simp only [Util.bind_eq_ok] at rest
      obtain ⟨_, proof, _, _, s, loop, _, concluded, same⟩ := rest
      cases same
      exact .inr ⟨r, s, ⟨found, checked, proof, loop, concluded⟩, rfl⟩

/-! ## A node for concrete blocks -/

def sample : ConnectEnv where
  computeHash := fun tx => tx.vout.length
  hashHeader := fun header => header.hashMerkleRoot
  hashWithoutSign := fun header => header.hashMerkleRoot
  pairHash := fun left right => 1000 * left + right
  checkHeaderPoW := fun _ => true
  verifySignature := fun _ _ _ => true
  adjustedTime := 0
  params := .main
  execution := fun _ => .sample (.stop [])
  dgp := fun state => ⟨false, state, 0#256, fun _ _ => none⟩
  script := .sample
  hash160 := fun _ => 0
  stateRoot := fun _ => 0
  utxoRoot := fun _ => 0
  blockWeight := fun block => 4 * block.baseSize
  sigOpCost := fun _ _ => 0
  checkInputs := fun _ _ => .ok ()
  sequenceLocks := fun _ _ => true
  nextWorkRequired := fun _ => 0
  checkProofOfStake := fun _ _ => .ok ()
  scriptsMap := fun _ => none
  readStakeIndex := fun _ => none
  dgpMaxBlockSize := 2000000

def sampleCoinbase : CTransaction where
  vin := [⟨⟨0, 0xffffffff⟩, [1, 1], 0⟩]
  vout := [⟨1800 * coin, payToPubkeyHash 1⟩]

def blockOf (env : ConnectEnv) (vtx : List CTransaction) : CBlock where
  nVersion := 1
  hashPrevBlock := 0
  hashMerkleRoot := (blockMerkleRoot env.computeHash env.pairHash vtx).1
  nTime := 0
  nBits := 0
  nNonce := 0
  hashStateRoot := 0
  hashUTXORoot := 0
  prevoutStake := ⟨0, 0xffffffff⟩
  vchBlockSig := []
  vtx := vtx

def callingTx : CTransaction where
  vin := [⟨⟨1, 0⟩, [], 0⟩]
  vout := [⟨1, pushData [4] ++ pushData [0x10, 0x27] ++ pushData [40] ++
    pushData [1] ++ pushData (Address.asBytes 7) ++ [Op.call]⟩]

def condensedTx : CTransaction where
  vin := [⟨⟨5, 0⟩, opSpend, 0xffffffff⟩, ⟨⟨3, 0⟩, opSpend, 0xffffffff⟩]
  vout := [⟨6, noExecCall 7⟩]

def twoCoins : CoinsView := fun outpoint =>
  if outpoint = ⟨1, 0⟩ then some ⟨⟨coin, payToPubkeyHash 1⟩, false, false, 1⟩
  else if outpoint = ⟨3, 0⟩ then some ⟨⟨5, noExecCall 7⟩, false, false, 1⟩ else none

/-- A payment that leaves most of its coin as a fee. -/
def spendingTx : CTransaction where
  vin := [⟨⟨7, 0⟩, [], 0⟩]
  vout := [⟨60, payToPubkeyHash 1⟩, ⟨40, payToPubkeyHash 2⟩]

def oneCoin : CoinsView := fun outpoint =>
  if outpoint = ⟨7, 0⟩ then some ⟨⟨coin, payToPubkeyHash 1⟩, false, false, 1⟩ else none

def samplePrev : PrevIndex := ⟨999, 0, 0, 0, 0⟩

end ConnectEnv
end Artax
