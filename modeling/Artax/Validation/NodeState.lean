import Artax.Store.HeightIndex
import Artax.Store.Receipts
import Artax.Util.Effects
import Artax.Validation.Connected

/-!
# Connecting blocks on the state of the node

`ConnectBlock` with what it does to the contract state, the delete set, the receipts that wait to be
committed, and the indexes. It undoes nothing when it fails; `ConnectTip` and `TestBlockValidity` put
back the roots and drop the receipts.
-/

namespace Artax

open Util (OrderedMap Effects require)

structure ConnectNode where
  state : ArtaxState
  results : StorageResults
  blocktree : BlockTreeDB

/-- What `ConnectBlock` and its callers ask of the rest of the node. -/
structure NodeEnv extends ConnectEnv where
  fLogEvents : Bool
  emptyRoot : H256
  stateAt : H256 → Address → Option AccountRecord
  utxoAt : H256 → Address → Option Vin
  writeUndoData : CBlock → Bool
  contextualChecks : CBlock → Except Rejection Unit
  computeHash_lt : ∀ tx, computeHash tx < 2 ^ 256
  hashHeader_lt : ∀ header, hashHeader header < 2 ^ 256
  stateRoot_stateAt : ∀ trie, stateRoot (stateAt (stateRoot trie)) = stateRoot trie
  utxoRoot_utxoAt : ∀ trie, utxoRoot (utxoAt (utxoRoot trie)) = utxoRoot trie

/-- What the loop of `ConnectBlock` collects for the receipts and the height index. -/
structure EventLog where
  countCumulativeGasUsed : UInt64 := 0
  heightIndexes : OrderedMap Address (List H256) := .empty

namespace NodeEnv

variable (env : NodeEnv)

def roots (state : ArtaxState) : H256 × H256 :=
  (env.stateRoot state.trie, env.utxoRoot state.stateUTXO)

def setRoots (roots : H256 × H256) (node : ConnectNode) : ConnectNode :=
  { node with state := node.state.setRoots (env.stateAt roots.1) (env.utxoAt roots.2) }

/-- What the reads of the governed parameters leave. A read by a call is an execution that is
reverted; it empties the delete set. -/
def afterReads (node : ConnectNode) : ConnectNode :=
  if (env.dgp node.state).dgpevm then { node with state := { node.state with deleteAddresses := [] } }
  else node

theorem getHash_lt (tx : CTransaction) : tx.getHash env.computeHash < 2 ^ 256 := by
  unfold CTransaction.getHash
  split
  · decide
  · exact env.computeHash_lt tx

def executedTx (i : Nat) (tx : CTransaction) (usedGas : UInt64) (txs : List ArtaxTransaction)
    (results : List ResultExecute) : ExecutedTx where
  hash := tx.getHash env.computeHash
  i := UInt32.ofNat i
  usedGas := usedGas
  executions := (txs.zip results).map fun e => (e.1.sender, e.1.receiveAddress, e.2)
  hash_lt := env.getHash_lt tx

def performByteCode (r : ConnectEnv.Round) (txs : List ArtaxTransaction) :
    Effects Rejection ConnectNode (List ResultExecute) := do
  let node ← get
  match ByteCodeExec.performByteCode r.ctx r.info .committed txs node.state [] with
  | none => Effects.noReturn
  | some (performed, state, results) => do
    set { node with state }
    if performed then pure results else throw ⟨100, "bad-tx-unknown-error"⟩

/-- The receipts and the entries of the height index that a transaction adds, unless the block is only
checked. -/
def logEvents (fJustCheck : Bool) (r : ConnectEnv.Round) (log : EventLog) (executed : ExecutedTx) :
    Effects Rejection ConnectNode EventLog :=
  let countCumulativeGasUsed := log.countCumulativeGasUsed + executed.usedGas
  if env.fLogEvents && !fJustCheck then do
    modify fun node => { node with
      results := node.results.addResult executed.hash (executed.receipts
        (env.hashHeader_lt r.block.toCBlockHeader) (UInt32.ofNat r.nHeight) countCumulativeGasUsed) }
    return {
      countCumulativeGasUsed
      heightIndexes := recordHashes log.heightIndexes executed.hash
        (executed.executions.map fun execution => execution.2.2.execRes.newAddress) }
  else pure { log with countCumulativeGasUsed }

def connectContract (fJustCheck : Bool) (r : ConnectEnv.Round) (i : Nat) (s : Connecting)
    (log : EventLog) (tx : CTransaction) : Effects Rejection ConnectNode (Connecting × EventLog) :=
  if tx.hasCreateOrCall && !tx.hasOpSpend then do
    let txs ← Effects.check (env.toConnectEnv.checkContract r.minGasPrice r.blockGasLimit s.view r.block tx)
    let results ← performByteCode r txs
    match ByteCodeExec.processingResults r.ctx (txs.zip results) {} with
    | none => throw ⟨100, "bad-vm-exec-processing"⟩
    | some bcer => do
      let log ← env.logEvents fJustCheck r log (env.executedTx i tx bcer.usedGas txs results)
      let blockGasUsed := s.blockGasUsed + bcer.usedGas
      Effects.check (require (decide (blockGasUsed ≤ r.blockGasLimit)) ⟨1000, "bad-blk-gaslimit"⟩)
      let node ← get
      return ({ s with
        state := node.state, blockGasUsed
        gasRefunds := s.gasRefunds + (bcer.refundOutputs.map CTxOut.nValue).sum
        checkVouts := s.checkVouts ++ bcer.refundOutputs
        checkVtx := s.checkVtx ++ bcer.valueTransfers }, log)
  else pure (s, log)

def connectTx (fJustCheck : Bool) (r : ConnectEnv.Round) (s : Connecting × EventLog)
    (tx : CTransaction × Nat) : Effects Rejection ConnectNode (Connecting × EventLog) := do
  let inputs ← Effects.check (env.toConnectEnv.connectInputs r s.1 tx.1)
  let (s, log) ← env.connectContract fJustCheck r tx.2 inputs s.2 tx.1
  let (view, undo) := s.view.updateCoins env.computeHash tx.1 r.nHeight
  return ({ s with view, vtxundo := s.vtxundo ++ [undo] }, log)

def checkBeforeCoins (fJustCheck : Bool) (r : ConnectEnv.Round) : Except Rejection Unit := do
  require (!r.block.vtx.isEmpty &&
      decide (r.block.vtx.length ≤ r.limits.dgpMaxBlockSize.toNat) &&
      decide (r.block.baseSize ≤ r.limits.dgpMaxBlockSize.toNat)) ⟨100, "bad-blk-length"⟩
  require (decide (env.blockWeight r.block ≤ r.limits.dgpMaxBlockWeight.toNat)) ⟨100, "bad-blk-weight"⟩
  env.checkBlock r.limits (!fJustCheck) (!fJustCheck) true r.block

/-- What `ConnectBlock` asks where the stake index is the one of the block tree database, which
`AddMPoSScript` reads. -/
def reading (blocktree : BlockTreeDB) : ConnectEnv :=
  { env.toConnectEnv with
    readStakeIndex := fun nHeight => blocktree.readStakeIndex (UInt32.ofInt nHeight) }

/-- The end of `ConnectBlock` after all transactions, up to the place where a block that is only
checked passes. -/
def checkRewards (blocktree : BlockTreeDB) (chain : ActiveChain) (r : ConnectEnv.Round)
    (s : Connecting) : Except Rejection Unit := do
  require (!decide (s.nFees < s.gasRefunds)) ⟨1000, "bad-blk-fees-greater-gasrefund"⟩
  match checkReward env.params
    (addMPoSScript chain env.scriptsMap (env.reading blocktree).readStakeIndex env.params) r.block r.nHeight s.nFees s.gasRefunds s.nActualStakeReward s.checkVouts with
  | .error rejection => .error ⟨rejection.dos + 100, ""⟩
  | .ok () => .ok ()

def previousRoots (prev : PrevIndex) : H256 × H256 :=
  if prev.hashStateRoot ≠ 0 ∧ prev.hashUTXORoot ≠ 0 then (prev.hashStateRoot, prev.hashUTXORoot)
  else (env.emptyRoot, env.emptyRoot)

def writeIndexes (r : ConnectEnv.Round) (log : EventLog) (node : ConnectNode) : ConnectNode :=
  let nHeight := UInt32.ofNat r.nHeight
  let blocktree := if env.fLogEvents then
      log.heightIndexes.entries.foldl (fun db entry =>
        db.writeHeightIndex nHeight entry.1 entry.2) node.blocktree
    else node.blocktree
  { node with
    blocktree := blocktree.writeStakeIndex nHeight (r.block.stakerKeyHash env.hash160)
    results := if env.fLogEvents then node.results.commitResults else node.results }

def connectTransactions (fJustCheck : Bool) (chain : ActiveChain) (prev : PrevIndex)
    (view : CoinsView) (r : ConnectEnv.Round) : Effects Rejection ConnectNode Connecting := do
  Effects.check (env.toConnectEnv.updateHashProof r.nHeight view r.block)
  Effects.check (env.toConnectEnv.checkOverwrites r.nHeight view r.block)
  let node ← get
  let (s, log) ← r.block.vtx.zipIdx.foldlM (env.connectTx fJustCheck r)
    (({ view, state := node.state } : Connecting), ({} : EventLog))
  let left ← get
  if fJustCheck then do
    Effects.check (env.checkRewards left.blocktree chain r s)
    modify (env.setRoots (env.previousRoots prev))
    return s
  else do
    Effects.check ((env.reading left.blocktree).concludeBlock chain r prev s)
    Effects.check (require (env.writeUndoData r.block) ⟨0, ""⟩)
    modify (env.writeIndexes r log)
    return s

def connectBlock (fJustCheck : Bool) (chain : ActiveChain) (prev : PrevIndex) (view : CoinsView)
    (block : CBlock) : Effects Rejection ConnectNode (Option Connecting) := do
  let node ← get
  match env.toConnectEnv.round chain (prev.nHeight + 1) node.state block with
  | none => Effects.noReturn
  | some r => do
    modify env.afterReads
    Effects.check (env.checkBeforeCoins fJustCheck r)
    if env.hashHeader block.toCBlockHeader = env.params.hashGenesisBlock then return none
    else some <$> env.connectTransactions fJustCheck chain prev view r

end NodeEnv

structure NodeState extends ConnectNode where
  coins : CoinsView
  bestBlock : H256

namespace NodeEnv

variable (env : NodeEnv)

/-- What the callers of `ConnectBlock` do when it fails: the roots they saved are put back, and the
receipts dropped. -/
def putBack (old : H256 × H256) (left : ConnectNode) : ConnectNode :=
  let left := env.setRoots old left
  { left with results := left.results.clearCacheResult }

/-- `ConnectTip` on a block that was read, with whether it succeeds. The view of the block is flushed
only if it was connected. -/
def connectTip (chain : ActiveChain) (prev : PrevIndex) (block : CBlock) (node : NodeState) :
    Option (Bool × NodeState) :=
  match (env.connectBlock false chain prev node.coins block).exec node.toConnectNode with
  | none => none
  | some (.error _, left) =>
    some (false, { node with toConnectNode := env.putBack (env.roots node.state) left })
  | some (.ok connected, left) =>
    some (true, {
      toConnectNode := left
      coins := (connected.map Connecting.view).getD node.coins
      bestBlock := env.hashHeader block.toCBlockHeader })

/-- `TestBlockValidity`. -/
def testBlockValidity (chain : ActiveChain) (prev : PrevIndex) (block : CBlock) (node : NodeState) :
    Option (Bool × NodeState) :=
  match env.contextualChecks block with
  | .error _ => some (false, node)
  | .ok () =>
    match (env.connectBlock true chain prev node.coins block).exec node.toConnectNode with
    | none => none
    | some (.error _, left) =>
      some (false, { node with toConnectNode := env.putBack (env.roots node.state) left })
    | some (.ok _, left) => some (true, { node with toConnectNode := left })

end NodeEnv

/-! ## The result without the effects -/

namespace NodeEnv

open Util.Effects

variable {env : NodeEnv} {fJustCheck : Bool}

theorem exec_performByteCode (r : ConnectEnv.Round) (txs : List ArtaxTransaction)
    (node : ConnectNode) :
    (performByteCode r txs).exec node =
      (ByteCodeExec.performByteCode r.ctx r.info .committed txs node.state []).map fun ran =>
        (if ran.1 then .ok ran.2.2 else .error ⟨100, "bad-tx-unknown-error"⟩,
          { node with state := ran.2.1 }) := by
  rw [performByteCode, exec_bind, exec_get, Option.bind_some]
  dsimp only
  cases ByteCodeExec.performByteCode r.ctx r.info .committed txs node.state [] with
  | none => rfl
  | some ran =>
    obtain ⟨performed, state, results⟩ := ran
    cases performed <;> rfl

/-- The round of a transaction and its round without effects are at the same point, with the block
tree database as it was. -/
def SamePoint (blocktree : BlockTreeDB) (s : Connecting × EventLog) (node : ConnectNode)
    (s' : Connecting) : Prop :=
  s.1 = s' ∧ s'.state = node.state ∧ node.blocktree = blocktree

theorem exec_logEvents (env : NodeEnv) (fJustCheck : Bool) (r : ConnectEnv.Round) (log : EventLog) (executed : ExecutedTx)
    (node : ConnectNode) :
    ∃ log' results, (env.logEvents fJustCheck r log executed).exec node =
      some (.ok log', { node with results }) := by
  unfold logEvents
  split
  · exact ⟨_, _, rfl⟩
  · exact ⟨_, node.results, rfl⟩

variable {r : ConnectEnv.Round} {node : ConnectNode} {chain : ActiveChain} {prev : PrevIndex}
  {view : CoinsView}

theorem endsAs_connectContract {i : Nat} {s : Connecting} {log : EventLog} {tx : CTransaction}
    (same : s.state = node.state) :
    EndsAs (env.connectContract fJustCheck r i s log tx) node
      (env.toConnectEnv.connectContract r s tx) (SamePoint node.blocktree) := by
  unfold connectContract ConnectEnv.connectContract
  split
  · refine endsAs_check_bind fun txs _ => ?_
    have performed := exec_performByteCode r txs node
    rw [ConnectEnv.executeContract, same]
    cases ran : ByteCodeExec.performByteCode r.ctx r.info .committed txs node.state [] with
    | none =>
      rw [ran] at performed
      refine (endsAs_noReturn (s := node) _).congr ?_
      rw [exec_bind, performed]
      rfl
    | some ended =>
      obtain ⟨success, state, results⟩ := ended
      rw [ran] at performed
      cases success with
      | false =>
        refine (endsAs_throw (s := { node with state }) _).congr ?_
        rw [exec_bind, performed]
        rfl
      | true =>
        refine EndsAs.congr (s := { node with state }) ?_ (by rw [exec_bind, performed]; rfl)
        dsimp only
        cases ByteCodeExec.processingResults r.ctx (txs.zip results) {} with
        | none => exact endsAs_throw _
        | some bcer =>
          obtain ⟨log', results', logged⟩ := exec_logEvents env fJustCheck r log
            (env.executedTx i tx bcer.usedGas txs results) { node with state }
          refine EndsAs.congr (s := { node with state, results := results' }) ?_
            (by dsimp only; rw [exec_bind, logged]; rfl)
          refine endsAs_check_bind fun _ _ => ?_
          exact (endsAs_pure (s := { node with state, results := results' }) ⟨rfl, rfl, rfl⟩).congr rfl
  · exact endsAs_pure ⟨rfl, same, rfl⟩

theorem endsAs_connectTx {blocktree : BlockTreeDB} (s : Connecting × EventLog)
    (tx : CTransaction × Nat) (s' : Connecting) (node : ConnectNode)
    (same : SamePoint blocktree s node s') :
    EndsAs (env.connectTx fJustCheck r s tx) node (env.toConnectEnv.connectTx r s' tx.1)
      (SamePoint blocktree) := by
  obtain ⟨rfl, same, rfl⟩ := same
  refine endsAs_check_bind fun inputs passed => ?_
  have kept : inputs.state = node.state := by
    simp only [ConnectEnv.connectInputs, Util.bind_eq_ok] at passed
    obtain ⟨_, _, _, _, _, _, _, _, _, _, done⟩ := passed
    cases done
    exact same
  refine (endsAs_connectContract kept).bind fun a left b agree => ?_
  obtain ⟨rfl, state, index⟩ := agree
  exact endsAs_pure ⟨rfl, state, index⟩

theorem endsAs_connectTransactions :
    EndsAs (env.connectTransactions false chain prev view r) node
      (do
        env.toConnectEnv.updateHashProof r.nHeight view r.block
        env.toConnectEnv.checkOverwrites r.nHeight view r.block
        let s ← r.block.vtx.foldlM (env.toConnectEnv.connectTx r) { view, state := node.state }
        (env.reading node.blocktree).concludeBlock chain r prev s
        require (env.writeUndoData r.block) ⟨0, ""⟩
        .ok (some s))
      fun s left connected => connected = some s ∧ s.state = left.state := by
  refine endsAs_check_bind fun _ _ => endsAs_check_bind fun _ _ => ?_
  have start : SamePoint node.blocktree ({ view, state := node.state }, {}) node
      { view, state := node.state } := ⟨rfl, rfl, rfl⟩
  have loop : EndsAs (r.block.vtx.zipIdx.foldlM (env.connectTx false r)
      ({ view, state := node.state }, {})) node _ (SamePoint node.blocktree) :=
    EndsAs.foldlM endsAs_connectTx r.block.vtx.zipIdx start
  rw [List.zipIdx_map_fst] at loop
  refine endsAs_get_bind (loop.bind fun s left s' same => ?_)
  obtain ⟨rfl, state, index⟩ := same
  rw [← index]
  refine endsAs_get_bind (endsAs_check_bind fun _ _ => endsAs_check_bind fun _ _ => ?_)
  exact EndsAs.congr (s := env.writeIndexes r s.2 left) (endsAs_pure ⟨rfl, state⟩) rfl

/-- Only the reward check at the end of `ConnectBlock` reads the stake index. -/
theorem connectBlock_reading (env : NodeEnv) (blocktree : BlockTreeDB) (chain : ActiveChain)
    (prev : PrevIndex) (view : CoinsView) (state : ArtaxState) (block : CBlock) :
    (env.reading blocktree).connectBlock chain prev view state block =
      (match env.toConnectEnv.round chain (prev.nHeight + 1) state block with
      | none => .error ⟨0, ""⟩
      | some r => do
        env.checkBeforeCoins false r
        if env.hashHeader block.toCBlockHeader = env.params.hashGenesisBlock then .ok none
        else do
          env.toConnectEnv.updateHashProof r.nHeight view block
          env.toConnectEnv.checkOverwrites r.nHeight view block
          let s ← block.vtx.foldlM (env.toConnectEnv.connectTx r) { view, state }
          (env.reading blocktree).concludeBlock chain r prev s
          .ok (some s)) :=
  rfl

/-- Where no account waits to be deleted and the undo data can be written, `ConnectBlock` ends as
without its effects, on the stake index that the node has, with the same contract state. -/
theorem endsAs_connectBlock {block : CBlock} (idle : node.state.deleteAddresses = [])
    (written : env.writeUndoData block) :
    EndsAs (env.connectBlock false chain prev view block) node
      ((env.reading node.blocktree).connectBlock chain prev view node.state block)
      fun connected left connected' => connected = connected' ∧
        ∀ s, connected = some s → s.state = left.state := by
  have reads : env.afterReads node = node := by
    obtain ⟨⟨_, _, _, _, _, _, _, _, _, deleteAddresses⟩, _, _⟩ := node
    cases idle
    exact ite_self _
  rw [connectBlock_reading]
  cases found : env.toConnectEnv.round chain (prev.nHeight + 1) node.state block with
  | none =>
    refine (endsAs_noReturn (s := node) _).congr ?_
    rw [connectBlock, exec_bind, exec_get, Option.bind_some]
    dsimp only
    rw [found]
  | some r =>
    obtain ⟨rfl, _⟩ := ConnectEnv.block_round found
    refine EndsAs.congr (s := node) (m := do
      check (env.checkBeforeCoins false r)
      if env.hashHeader r.block.toCBlockHeader = env.params.hashGenesisBlock then return none
      else some <$> env.connectTransactions false chain prev view r) ?_ ?_
    · refine endsAs_check_bind fun _ _ => ?_
      split
      · refine endsAs_pure ⟨rfl, fun s same => ?_⟩
        cases same
      · have ends : EndsAs (env.connectTransactions false chain prev view r) node _ _ :=
          endsAs_connectTransactions
        simp only [written, require, if_true] at ends
        refine (ends.map some).mono ?_
        rintro connected left connected' ⟨s, rfl, rfl, state⟩
        refine ⟨rfl, fun s' same => ?_⟩
        cases same
        exact state
    · rw [connectBlock, exec_bind, exec_get, Option.bind_some]
      dsimp only
      rw [found]
      rw [exec_bind, exec_modify, reads]
      rfl

end NodeEnv

/-! ## What a failed execution leaves of the delete set -/

namespace ByteCodeExec

theorem performByteCode_default {ctx : ExecutionContext} {env : EnvInfo} {p : Permanence}
    {txs : List ArtaxTransaction} {s left : ArtaxState} {before results : List ResultExecute}
    {performed : Bool} (versions : ∀ tx ∈ txs, tx.version.toRaw = VersionVM.evmDefault.toRaw)
    (ran : performByteCode ctx env p txs s before = some (performed, left, results)) :
    performed ∧ left.deleteAddresses = [] := by
  induction txs generalizing s before with
  | nil =>
    cases ran
    exact ⟨rfl, rfl⟩
  | cons tx rest ih =>
    rw [List.forall_mem_cons] at versions
    rw [performByteCode, if_neg (not_not.2 versions.1)] at ran
    split at ran
    · cases ran
    · exact ih versions.2 ran

end ByteCodeExec

end Artax
