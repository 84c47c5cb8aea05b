import Artax.Validation.Connected

/-!
# What a block depends on

`ConnectBlock` validates a block on top of an index entry, but contracts see the tip of the active
chain. Two active chains that contain the entry lead to the same results for a block that executes no
contract, and for all blocks exactly when they show the virtual machine the same environment.
-/

namespace Artax

open ByteCodeExec ArtaxState List
open Executive hiding execute

/-! ## Executions in two environments -/

namespace Executive

variable (se : SealEngine) (env env' : EnvInfo)

theorem call_env : call se env = call se env' := by
  funext p gasCovers s
  simp only [call, eip158ForkBlock, Nat.zero_le, if_true]

theorem create_env : create se env = create se env' := by
  funext sender endowment hasInit s
  simp only [create, openAccount, eip158ForkBlock, Nat.zero_le, if_true]

end Executive

theorem run_env (se : SealEngine) (env env' : EnvInfo) : run se env = run se env' := by
  funext trace f s sub
  induction trace generalizing f s sub with
  | stop output => rfl
  | exception e => rfl
  | suicide dest => rfl
  | sstore key value rest ih => simp only [run, ih]
  | log topics data rest ih => simp only [run, ih]
  | call op codeAddress value gasCovers inner rest ihInner ihRest =>
    simp only [run, call_env se env env', ihInner, ihRest]
  | create hasInit inner rest ihInner ihRest =>
    simp only [run, create_env se env env', ihInner, ihRest]

/-- Two environments in which the virtual machine does the same and of which the rest of the code
reads the same. -/
structure SameExecution (ctx ctx' : ExecutionContext) (env env' : EnvInfo) : Prop where
  sealEngine : ctx'.sealEngine = ctx.sealEngine
  baseGasRequired : ctx'.baseGasRequired = ctx.baseGasRequired
  gasCovers : ctx'.gasCovers = ctx.gasCovers
  amounts : ctx'.amounts = ctx.amounts
  computeHash : ctx'.computeHash = ctx.computeHash
  sha256 : ctx'.sha256 = ctx.sha256
  ripemd160 : ctx'.ripemd160 = ctx.ripemd160
  vm : ctx'.vm env' = ctx.vm env
  fork : ctx'.chainHeight < nFixUTXOCacheHFHeight ↔ ctx.chainHeight < nFixUTXOCacheHFHeight
  author : env'.author = env.author
  gasLimit : env'.gasLimit = env.gasLimit
  gasUsed : env'.gasUsed = env.gasUsed

namespace SameExecution

variable {ctx ctx' : ExecutionContext} {env env' : EnvInfo} (same : SameExecution ctx ctx' env env')
  (t : ArtaxTransaction)
include same

theorem prepare_eq : prepare ctx' env' t = prepare ctx env t := by
  funext s
  simp only [prepare, createArtaxAddress, same.sha256, same.ripemd160, same.author]

theorem initialise_eq : initialise ctx' env' t = initialise ctx env t := by
  funext s
  simp only [initialise, same.gasLimit, same.gasUsed, same.baseGasRequired]

theorem enter_eq : Executive.execute ctx' env' t = Executive.execute ctx env t := by
  funext s
  simp only [Executive.execute, enterCall, enterCreate, same.sealEngine,
    same.gasCovers, call_env ctx.sealEngine env' env,
    create_env ctx.sealEngine env' env]

theorem go_eq : go ctx' env' t = go ctx env t := by
  funext entered frame
  simp only [go, same.sealEngine, same.vm, run_env ctx.sealEngine env' env]

theorem finalGas_eq : finalGas ctx' t = finalGas ctx t := by
  funext ran
  have refunds : refunds ctx' ran = refunds ctx ran := by
    rw [refunds, refunds, same.sealEngine]
  rw [finalGas, finalGas, refunds]

theorem finalizeState_eq : finalizeState ctx' env' t = finalizeState ctx env t := by
  funext ran
  simp only [finalizeState, same.finalGas_eq, same.author]

theorem finalizeResult_eq : finalizeResult ctx' t = finalizeResult ctx t := by
  funext ran
  simp only [finalizeResult, same.finalGas_eq, refunds, same.sealEngine]

theorem settle_eq : settle ctx' env' t = settle ctx env t := by
  funext savepoint res logs s
  simp only [settle, recordVins, condensingInput,
    commitAll, same.amounts, same.computeHash, eip158ForkBlock, Nat.zero_le]

theorem conclude_eq : conclude ctx' env' t = conclude ctx env t := by
  funext p savepoint ran
  simp only [conclude, deletedState, same.finalizeState_eq,
    same.finalizeResult_eq, same.settle_eq]

theorem execute_eq : execute ctx' env' t = execute ctx env t := by
  funext p s
  simp only [execute, tryBlock, catchBlock, thrownResult,
    same.prepare_eq, same.initialise_eq, same.enter_eq, same.go_eq, same.conclude_eq, same.amounts,
    same.fork]

theorem performByteCode_eq (p : Permanence) (txs : List ArtaxTransaction) (s : ArtaxState)
    (results : List ResultExecute) :
    performByteCode ctx' env' p txs s results =
      performByteCode ctx env p txs s results := by
  induction txs generalizing s results with
  | nil => rfl
  | cons tx rest ih =>
    simp only [performByteCode, perform, same.execute_eq, ih]

theorem processingResults_eq (pairs : List (ArtaxTransaction × ResultExecute))
    (out : ByteCodeExecResult) :
    processingResults ctx' pairs out = processingResults ctx pairs out := by
  induction pairs generalizing out with
  | nil => rfl
  | cons pair rest ih =>
    simp only [processingResults, processResult, same.amounts,
      same.computeHash, ih]

theorem executeContract_eq :
    ConnectEnv.executeContract ctx' env' = ConnectEnv.executeContract ctx env := by
  funext txs state
  simp only [ConnectEnv.executeContract, same.performByteCode_eq, same.processingResults_eq]

end SameExecution

/-! ## Two contents of the active chain -/

namespace ConnectEnv

def tipHashes (chain : ActiveChain) : List H256 := (chain.reverse.take 256).map ChainEntry.hash

/-- What `ConnectBlock` computes of a block, accepted or not: the transactions and refunds it has to
contain, and the two roots. -/
def computes (env : ConnectEnv) (chain : ActiveChain) (nHeight : Nat) (view : CoinsView)
    (state : ArtaxState) (block : CBlock) :
    Option (Except Rejection (List CTransaction × List CTxOut × H256 × H256)) :=
  (env.round chain nHeight state block).map fun r =>
    (block.vtx.foldlM (env.connectTx r) { view, state }).map fun s =>
      (s.checkVtx, s.checkVouts, env.stateRoot s.state.trie, env.utxoRoot s.state.stateUTXO)

/-- The active chains look the same to the virtual machine. -/
def SameTip (chain chain' : ActiveChain) : Prop :=
  chain.length = chain'.length ∧ tipHashes chain = tipHashes chain'

section Same

variable {env : ConnectEnv} {chain chain' : ActiveChain} (same : SameTip chain chain')
include same

theorem round_eq (nHeight : Nat) (state : ArtaxState) (block : CBlock) :
    env.round chain nHeight state block = env.round chain' nHeight state block := by
  have height : chain.height = chain'.height := by rw [ActiveChain.height, ActiveChain.height, same.1]
  have hashes : (chain.reverse.take 256).map ChainEntry.hash =
      (chain'.reverse.take 256).map ChainEntry.hash := same.2
  simp only [round, executionContext, buildEVMEnvironment, height, hashes]

end Same

theorem getMPoSOutputScripts_eq {ancestors chain chain' : ActiveChain} (before : ancestors <+: chain)
    (before' : ancestors <+: chain') (scriptsMap : Int → Option (H256 × CScript))
    (readStakeIndex : Int → Option Address) (params : ConsensusParams) (nHeight : Int)
    (below : nHeight < ancestors.length) :
    getMPoSOutputScripts (addMPoSScript chain scriptsMap readStakeIndex params) nHeight params =
      getMPoSOutputScripts (addMPoSScript chain' scriptsMap readStakeIndex params) nHeight params := by
  have entry : ∀ h : Int, h < ancestors.length → chain.entryAt h = chain'.entryAt h := by
    intro h low
    unfold ActiveChain.entryAt
    by_cases negative : h < 0
    · rw [if_pos negative, if_pos negative]
    · rw [if_neg negative, if_neg negative]
      have inside : h.toNat < ancestors.length := by omega
      obtain ⟨_, rfl⟩ := before
      obtain ⟨_, rfl⟩ := before'
      rw [getElem?_append_left inside, getElem?_append_left inside]
  have collect : ∀ count (h : Int), h < ancestors.length →
      collectMPoSScripts (addMPoSScript chain scriptsMap readStakeIndex params) count h =
        collectMPoSScripts (addMPoSScript chain' scriptsMap readStakeIndex params) count h := by
    intro count
    induction count with
    | zero => intro h _; rfl
    | succ count ih =>
      intro h low
      have script : addMPoSScript chain scriptsMap readStakeIndex params h =
          addMPoSScript chain' scriptsMap readStakeIndex params h := by
        rw [addMPoSScript, addMPoSScript, entry h low]
      rw [collectMPoSScripts, collectMPoSScripts, script, ih (h - 1) (by omega)]
  exact collect _ _ (by omega)

/-- What `ConnectBlock` computes of a block, and whether it accepts it, is the same on two active
chains. -/
def Alike (env : ConnectEnv) (chain chain' : ActiveChain) (prev : PrevIndex) (view : CoinsView)
    (state : ArtaxState) (block : CBlock) : Prop :=
  env.computes chain (prev.nHeight + 1) view state block =
      env.computes chain' (prev.nHeight + 1) view state block ∧
    (env.connectBlock chain prev view state block).toBool =
      (env.connectBlock chain' prev view state block).toBool

/-- The rounds on two active chains differ at most in what contracts see. -/
theorem round_alike (env : ConnectEnv) (chain chain' : ActiveChain) (nHeight : Nat)
    (state : ArtaxState) (block : CBlock) :
    (env.round chain nHeight state block = none ∧ env.round chain' nHeight state block = none) ∨
      ∃ r ctx info, env.round chain nHeight state block = some r ∧
        env.round chain' nHeight state block = some { r with ctx, info } := by
  unfold round
  split
  · exact .inr ⟨_, _, _, rfl, rfl⟩
  · exact .inl ⟨rfl, rfl⟩

theorem loop_unexecuted {env : ConnectEnv} {r : Round} {txs : List CTransaction}
    (plain : ∀ tx ∈ txs, tx.isExecuted = false) (ctx : ExecutionContext) (info : EnvInfo)
    (s : Connecting) :
    txs.foldlM (env.connectTx { r with ctx, info }) s = txs.foldlM (env.connectTx r) s := by
  induction txs generalizing s with
  | nil => rfl
  | cons tx rest ih =>
    obtain ⟨here, later⟩ := forall_mem_cons.1 plain
    have skipped (r : Round) (s : Connecting) : env.connectContract r s tx = .ok s :=
      if_neg (Bool.eq_false_iff.1 here)
    have round : env.connectTx { r with ctx, info } s tx = env.connectTx r s tx := by
      simp only [connectTx, skipped]
      rfl
    simp only [foldlM_cons, round, ih later]

section Ancestors

variable {env : ConnectEnv} {ancestors chain chain' : ActiveChain} (before : ancestors <+: chain)
  (before' : ancestors <+: chain') {prev : PrevIndex} (height : ancestors.length = prev.nHeight + 1)
include before before' height

theorem concludeBlock_eq {r : Round} (top : r.nHeight = prev.nHeight + 1) (s : Connecting) :
    env.concludeBlock chain r prev s = env.concludeBlock chain' r prev s := by
  have recipients := getMPoSOutputScripts_eq before before' env.scriptsMap env.readStakeIndex
    env.params (r.nHeight - 1) (by omega)
  simp only [concludeBlock, checkReward, checkStakeReward, recipients]

theorem alike_of_sameTip (same : SameTip chain chain') (view : CoinsView) (state : ArtaxState)
    (block : CBlock) : env.Alike chain chain' prev view state block := by
  refine ⟨by rw [computes, computes, round_eq same], congrArg Except.toBool ?_⟩
  unfold connectBlock
  rw [round_eq same]
  cases found : env.round chain' (prev.nHeight + 1) state block with
  | none => rfl
  | some r => simp only [concludeBlock_eq before before' height (block_round found).2]

theorem alike_of_unexecuted (view : CoinsView) (state : ArtaxState) {block : CBlock}
    (plain : ∀ tx ∈ block.vtx, tx.isExecuted = false) :
    env.Alike chain chain' prev view state block := by
  unfold Alike computes connectBlock
  rcases env.round_alike chain chain' (prev.nHeight + 1) state block with
    ⟨none, none'⟩ | ⟨r, ctx, info, found, found'⟩
  · rw [none, none']
    exact ⟨rfl, rfl⟩
  · rw [found, found']
    simp only [Option.map_some, loop_unexecuted plain,
      concludeBlock_eq before before' height (block_round found).2, true_and]
    rfl

end Ancestors

theorem connectTx_of_executed {env : ConnectEnv} {r : Round} {s middle : Connecting}
    {tx : CTransaction} {txs : List ArtaxTransaction} {after : ArtaxState} {bcer : ByteCodeExecResult}
    (inputs : env.connectInputs r s tx = .ok middle) (executes : tx.isExecuted)
    (decoded : env.checkContract r.minGasPrice r.blockGasLimit middle.view r.block tx = .ok txs)
    (ran : executeContract r.ctx r.info txs middle.state = .ok (after, bcer))
    (gas : middle.blockGasUsed + bcer.usedGas ≤ r.blockGasLimit) :
    ∃ s', env.connectTx r s tx = .ok s' ∧
      s'.checkVouts = middle.checkVouts ++ bcer.refundOutputs := by
  have contract : env.connectContract r middle tx = .ok { middle with
      state := after
      blockGasUsed := middle.blockGasUsed + bcer.usedGas
      gasRefunds := middle.gasRefunds + (bcer.refundOutputs.map CTxOut.nValue).sum
      checkVouts := middle.checkVouts ++ bcer.refundOutputs
      checkVtx := middle.checkVtx ++ bcer.valueTransfers } := by
    unfold CTransaction.isExecuted at executes
    simp only [connectContract, executes, if_true, decoded, ran, bind, Except.bind, gas, decide_true,
      Util.require]
  simp only [connectTx, inputs, contract, bind, Except.bind, Except.ok.injEq, exists_eq_left']

/-- A node whose virtual machine leaves some gas unless it sees a given height and given hashes. -/
def telling (number : Nat) (lastHashes : List H256) : ConnectEnv :=
  { sample with
    execution := fun _ => { ExecutionContext.sample (.stop []) with
      vm := fun info _ _ => ⟨.stop [],
        if info.number = number ∧ info.lastHashes = lastHashes then 0#256 else 5000#256⟩ } }

def tellingBlock : CBlock := sample.blockOf [callingTx]

def leaving (gasLeft : U256) (chainHeight : Int) : ExecutionContext :=
  { ExecutionContext.sample (.stop []) with
    vm := fun _ _ _ => ⟨.stop [], gasLeft⟩, computeHash := sample.computeHash, chainHeight }

def refundFor (gasLeft : U256) : List CTxOut :=
  if gasLeft = 0#256 then [] else [⟨40 * gasLeft.toNat, CScript.payToPubkeyHash 0⟩]

def refundsFor (gasLeft : U256) (chainHeight : Int) : Bool :=
  match sample.checkContract 40 40000000 twoCoins tellingBlock callingTx with
  | .error _ => false
  | .ok txs =>
    match executeContract (leaving gasLeft chainHeight)
        (sample.buildEVMEnvironment [] tellingBlock 40000000) txs twoContracts with
    | .error _ => false
    | .ok (_, bcer) => decide (bcer.refundOutputs = refundFor gasLeft ∧ bcer.usedGas ≤ 40000000)

section Telling

variable (number : Nat) (lastHashes : List H256) (chain : ActiveChain) (nHeight : Nat)

def gasLeftOn : U256 :=
  if (chain.height + 1).toNat = number ∧
    tipHashes chain ++ replicate (256 - (tipHashes chain).length) 0 = lastHashes
  then 0#256 else 5000#256

def tellingRound : Round where
  block := tellingBlock
  nHeight := nHeight
  limits := updateBlockSizeParams 2000000
  minGasPrice := 40
  blockGasLimit := 40000000
  ctx := (telling number lastHashes).executionContext chain .eip158
  info := (telling number lastHashes).buildEVMEnvironment chain tellingBlock 40000000

theorem round_telling :
    (telling number lastHashes).round chain nHeight twoContracts tellingBlock =
      some (tellingRound number lastHashes chain nHeight) := by
  rfl

theorem connectInputs_telling :
    ∃ s, (telling number lastHashes).connectInputs (tellingRound number lastHashes chain nHeight)
        { view := twoCoins, state := twoContracts } callingTx = .ok s ∧
      s.view = twoCoins ∧ s.state = twoContracts ∧ s.checkVouts = [] ∧
      s.blockGasUsed = 0 :=
  ⟨_, rfl, rfl, rfl, rfl, rfl⟩

theorem sameExecution_telling :
    ∃ chainHeight, (chainHeight = 0 ∨ chainHeight = 100000) ∧
      SameExecution (leaving (gasLeftOn number lastHashes chain) chainHeight)
        (tellingRound number lastHashes chain nHeight).ctx
        (sample.buildEVMEnvironment [] tellingBlock 40000000)
        (tellingRound number lastHashes chain nHeight).info := by
  have below : (0 : Int) < nFixUTXOCacheHFHeight := by decide
  have reached : ¬ (100000 : Int) < nFixUTXOCacheHFHeight := by decide
  by_cases early : chain.height < nFixUTXOCacheHFHeight
  · exact ⟨0, .inl rfl, rfl, rfl, rfl, rfl, rfl, rfl, rfl, rfl, iff_of_true early below, rfl, rfl, rfl⟩
  · exact ⟨100000, .inr rfl, rfl, rfl, rfl, rfl, rfl, rfl, rfl, rfl, iff_of_false early reached, rfl,
      rfl, rfl⟩

theorem refundsFor_telling {chainHeight : Int} (known : chainHeight = 0 ∨ chainHeight = 100000) :
    refundsFor (gasLeftOn number lastHashes chain) chainHeight := by
  unfold gasLeftOn
  rcases known with rfl | rfl <;> split_ifs <;> decide +kernel

theorem computes_telling :
    ∃ vtx stateRoot utxoRoot, (telling number lastHashes).computes chain nHeight twoCoins
        twoContracts tellingBlock =
      some (.ok (vtx, refundFor (gasLeftOn number lastHashes chain), stateRoot, utxoRoot)) := by
  obtain ⟨s, inputs, view, state, vouts, used⟩ :=
    connectInputs_telling number lastHashes chain nHeight
  obtain ⟨chainHeight, known, same⟩ := sameExecution_telling number lastHashes chain nHeight
  have refunds := refundsFor_telling number lastHashes chain known
  unfold refundsFor at refunds
  split at refunds
  · cases refunds
  · rename_i txs decoded
    split at refunds
    · cases refunds
    · rename_i after bcer ran
      simp only [decide_eq_true_eq] at refunds
      obtain ⟨s', passed, paid⟩ := connectTx_of_executed inputs (by decide)
        (show _ = Except.ok txs from view ▸ decoded)
        (show _ = Except.ok (after, bcer) by rw [same.executeContract_eq, state, ran])
        (show s.blockGasUsed + bcer.usedGas ≤ 40000000 by rw [used, UInt64.zero_add]; exact refunds.2)
      rw [vouts, nil_append, refunds.1] at paid
      have loop : tellingBlock.vtx.foldlM ((telling number lastHashes).connectTx
          (tellingRound number lastHashes chain nHeight))
          { view := twoCoins, state := twoContracts } = .ok s' := by
        rw [show tellingBlock.vtx = [callingTx] from rfl, foldlM_cons, passed]
        rfl
      refine ⟨s'.checkVtx, (telling number lastHashes).stateRoot s'.state.trie,
        (telling number lastHashes).utxoRoot s'.state.stateUTXO, ?_⟩
      rw [computes, round_telling, Option.map_some, loop, ← paid]
      rfl

end Telling

def numberReading : ConnectEnv :=
  { telling 1 (5 :: replicate 255 0) with
    computeHash := fun tx => if tx = callingTx then 5 else if tx = condensedTx then 7 else 11 }

end ConnectEnv
end Artax
