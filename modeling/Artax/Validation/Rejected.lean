import Artax.Validation.NodeState

/-!
# A rejected block leaves the node as it was

`ConnectBlock` changes the contract state and the waiting receipts while it checks a block, and
leaves them changed when it fails. What its callers put back is enough, for a node at rest.
-/

namespace Artax

open VersionVM Option StorageResults
open Util.Effects

namespace ConnectEnv

/-- Virtual machine transactions that passed the checks of their versions: all have the version that
is executed, or already the first has not. -/
def VersionsChecked (txs : List ArtaxTransaction) : Prop :=
  (∀ tx ∈ txs, tx.version.toRaw = evmDefault.toRaw) ∨
    ∃ tx rest, txs = tx :: rest ∧ tx.version.toRaw ≠ evmDefault.toRaw

variable {minGasPrice blockGasLimit : UInt64} {txs : List ArtaxTransaction}

theorem versionsChecked_of_checkVersionsAndGas {nTxFee : CAmount} {sumGas gasAllTxs : U256}
    {nonZero result : Bool}
    (passed : checkVersionsAndGas minGasPrice blockGasLimit nTxFee txs sumGas gasAllTxs nonZero =
      .ok result) :
    VersionsChecked txs ∧
      (nonZero → ∀ tx ∈ txs, tx.version.toRaw = evmDefault.toRaw) := by
  induction txs generalizing sumGas gasAllTxs nonZero with
  | nil => exact ⟨.inl (by simp), by simp⟩
  | cons tx rest ih =>
    simp only [checkVersionsAndGas, Util.bind_eq_ok, Util.require_eq_ok] at passed
    obtain ⟨_, _, _, _, _, format, _, mixed, _, root, _, version, _, flags, _, _, _, _, _, _, _, _,
      later⟩ := passed
    obtain ⟨_, after⟩ := ih later
    simp only [beq_iff_eq, Bool.or_eq_true, bne_iff_ne, Bool.not_eq_true'] at format mixed root version flags
    by_cases zero : tx.version.rootVM = 0
    · have other : tx.version.toRaw ≠ evmDefault.toRaw := by
        rw [toRaw, format, zero, version, flags]
        decide
      refine ⟨.inr ⟨tx, rest, rfl, other⟩, fun nonZero => ?_⟩
      exact absurd (mixed.resolve_left (not_not.2 zero)) (by simp [nonZero])
    · have same : tx.version.toRaw = evmDefault.toRaw := by
        rw [toRaw, format, root.resolve_left zero, version, flags]
        rfl
      have all : ∀ tx ∈ rest, tx.version.toRaw = evmDefault.toRaw :=
        after (by rw [Bool.or_eq_true]; exact .inr (bne_iff_ne.2 zero))
      have both : ∀ other ∈ tx :: rest, other.version.toRaw = evmDefault.toRaw := by
        rw [List.forall_mem_cons]
        exact ⟨same, all⟩
      exact ⟨.inl both, fun _ => both⟩

theorem versionsChecked_of_checkContract {env : ConnectEnv} {view : CoinsView} {block : CBlock}
    {tx : CTransaction}
    (passed : env.checkContract minGasPrice blockGasLimit view block tx = .ok txs) :
    VersionsChecked txs := by
  rw [checkContract, Util.bind_eq_ok] at passed
  obtain ⟨_, _, passed⟩ := passed
  split at passed
  · cases passed
  · simp only [Util.bind_eq_ok] at passed
    obtain ⟨_, _, _, _, _, versions, _, _, done⟩ := passed
    cases done
    exact (versionsChecked_of_checkVersionsAndGas versions).1

end ConnectEnv

def StorageResults.waiting (s : StorageResults) (hashTx : H256) : Option (List TransactionReceiptInfo) :=
  if s.db.contains hashTx then none else s.m_cache_result.find? hashTx

/-- What stays while a block is checked: the indexes, what a property says of the results, and that
no account waits to be deleted. -/
structure Quiet (blocktree : BlockTreeDB) (R : StorageResults → Prop) (node : ConnectNode) : Prop where
  blocktree : node.blocktree = blocktree
  results : R node.results
  deleteAddresses : node.state.deleteAddresses = []

namespace NodeEnv

variable {env : NodeEnv} {fJustCheck : Bool} {blocktree : BlockTreeDB} {R : StorageResults → Prop}

variable {r : ConnectEnv.Round} {node left : ConnectNode} {chain : ActiveChain} {prev : PrevIndex}

theorem keeps_performByteCode {txs : List ArtaxTransaction}
    (versions : ConnectEnv.VersionsChecked txs) :
    Keeps (Quiet blocktree R) (performByteCode r txs) := by
  intro node result left quiet ended
  rw [exec_performByteCode] at ended
  obtain ⟨⟨performed, state, results⟩, ran, ended⟩ := map_eq_some_iff.1 ended
  obtain ⟨_, rfl⟩ := Prod.mk.inj ended
  refine ⟨quiet.blocktree, quiet.results, ?_⟩
  rcases versions with all | ⟨tx, rest, rfl, other⟩
  · exact (ByteCodeExec.performByteCode_default all ran).2
  · rw [ByteCodeExec.performByteCode, if_pos other] at ran
    cases ran
    exact quiet.deleteAddresses

section

variable (adds : fJustCheck = false → ∀ s hash result, R s → R (addResult s hash result))
include adds

theorem keeps_logEvents (r : ConnectEnv.Round) (log : EventLog) (executed : ExecutedTx) :
    Keeps (Quiet blocktree R) (env.logEvents fJustCheck r log executed) := by
  unfold logEvents
  split
  · rename_i logging
    rw [Bool.and_eq_true, Bool.not_eq_true'] at logging
    refine (keeps_modify fun _ quiet => ?_).bind fun _ => keeps_pure _
    exact ⟨quiet.blocktree, adds logging.2 _ _ _ quiet.results, quiet.deleteAddresses⟩
  · exact keeps_pure _

theorem keeps_connectContract (r : ConnectEnv.Round) (i : Nat) (s : Connecting) (log : EventLog)
    (tx : CTransaction) : Keeps (Quiet blocktree R) (env.connectContract fJustCheck r i s log tx) := by
  unfold connectContract
  split
  · refine keeps_check_bind fun txs checked => ?_
    refine (keeps_performByteCode (ConnectEnv.versionsChecked_of_checkContract checked)).bind
      fun results => ?_
    split
    · exact keeps_throw _
    · refine (keeps_logEvents adds r log _).bind fun log => ?_
      exact (keeps_check _).bind fun _ => keeps_get.bind fun _ => keeps_pure _
  · exact keeps_pure _

theorem keeps_connectTx (r : ConnectEnv.Round) (s : Connecting × EventLog) (tx : CTransaction × Nat) :
    Keeps (Quiet blocktree R) (env.connectTx fJustCheck r s tx) :=
  (keeps_check _).bind fun _ => (keeps_connectContract adds r _ _ _ _).bind fun _ => keeps_pure _

/-- Up to the place where nothing can fail any more, the transactions of a block keep all that is not
put back. -/
theorem failsKeeping_connectTransactions (chain : ActiveChain) (prev : PrevIndex) (view : CoinsView)
    (r : ConnectEnv.Round) :
    FailsKeeping (Quiet blocktree R) (env.connectTransactions fJustCheck chain prev view r) := by
  refine (keeps_check _).bind_failsKeeping fun _ => (keeps_check _).bind_failsKeeping fun _ =>
    keeps_get.bind_failsKeeping fun _ => ?_
  refine (Keeps.foldlM (fun s tx _ => keeps_connectTx adds r s tx) _).bind_failsKeeping fun s =>
    keeps_get.bind_failsKeeping fun _ => ?_
  split
  · exact (keeps_check _).bind_failsKeeping fun _ => failsKeeping_modify_pure _ _
  · exact (keeps_check _).bind_failsKeeping fun _ => (keeps_check _).bind_failsKeeping fun _ =>
      failsKeeping_modify_pure _ _

end

theorem quiet_afterReads (quiet : Quiet blocktree R node) :
    Quiet blocktree R (env.afterReads node) := by
  unfold NodeEnv.afterReads
  split
  · exact ⟨quiet.blocktree, quiet.results, rfl⟩
  · exact quiet

theorem failsKeeping_connectBlock
    (adds : fJustCheck = false → ∀ s hash result, R s → R (addResult s hash result))
    (chain : ActiveChain) (prev : PrevIndex) (view : CoinsView) (block : CBlock) :
    FailsKeeping (Quiet blocktree R) (env.connectBlock fJustCheck chain prev view block) := by
  refine keeps_get.bind_failsKeeping fun node => ?_
  split
  · exact keeps_noReturn.failsKeeping
  · refine (keeps_modify fun _ => quiet_afterReads).bind_failsKeeping fun _ =>
      (keeps_check _).bind_failsKeeping fun _ => ?_
    split
    · exact (keeps_pure _).failsKeeping
    · exact (failsKeeping_connectTransactions adds chain prev view _).map some

theorem roots_setRoots (roots : H256 × H256) (node : ConnectNode) :
    env.roots (env.setRoots roots node).state =
      (env.stateRoot (env.stateAt roots.1), env.utxoRoot (env.utxoAt roots.2)) := rfl

theorem roots_setRoots_roots (state : ArtaxState) (node : ConnectNode) :
    env.roots (env.setRoots (env.roots state) node).state = env.roots state := by
  rw [roots_setRoots]
  exact Prod.ext (env.stateRoot_stateAt _) (env.utxoRoot_utxoAt _)

theorem connectTransactions_checked {view : CoinsView} {s : Connecting}
    (quiet : Quiet blocktree R node)
    (ended : (env.connectTransactions true chain prev view r).exec node = some (.ok s, left)) :
    Quiet blocktree R left ∧
      env.roots left.state = (env.stateRoot (env.stateAt (env.previousRoots prev).1),
        env.utxoRoot (env.utxoAt (env.previousRoots prev).2)) := by
  simp only [connectTransactions, exec_bind_eq_ok, exec_check_eq_ok] at ended
  obtain ⟨_, _, ⟨_, rfl⟩, _, _, ⟨_, rfl⟩, _, _, got, _, middle, looped, ended⟩ := ended
  cases got
  have kept : Quiet blocktree R middle :=
    Keeps.foldlM (fun s tx _ => keeps_connectTx (fun wrong => by cases wrong) r s tx) _ quiet looped
  simp only [if_true, exec_bind_eq_ok, exec_check_eq_ok, exec_get] at ended
  obtain ⟨_, _, got, _, _, ⟨_, rfl⟩, _, _, put, ended⟩ := ended
  cases got
  cases put
  cases ended
  exact ⟨⟨kept.blocktree, kept.results, kept.deleteAddresses⟩, rfl⟩

/-- A block that is only checked and passes leaves results, indexes and delete set, and the roots of
the previous block if the node had them. -/
theorem connectBlock_checked {view : CoinsView} {block : CBlock} {connected : Option Connecting}
    (quiet : Quiet blocktree R node) (rest : env.previousRoots prev = env.roots node.state)
    (ended : (env.connectBlock true chain prev view block).exec node = some (.ok connected, left)) :
    Quiet blocktree R left ∧ env.roots left.state = env.roots node.state := by
  have reads : env.roots (env.afterReads node).state = env.roots node.state := by
    unfold afterReads
    split <;> rfl
  simp only [connectBlock, exec_bind_eq_ok, exec_get] at ended
  obtain ⟨_, _, got, ended⟩ := ended
  cases got
  split at ended
  · cases ended
  · simp only [exec_bind_eq_ok, exec_check_eq_ok, exec_modify] at ended
    obtain ⟨_, _, read, _, _, ⟨_, rfl⟩, ended⟩ := ended
    cases read
    split at ended
    · cases ended
      exact ⟨(quiet_afterReads quiet), reads⟩
    · rw [exec_map] at ended
      obtain ⟨⟨result, middle⟩, now, ended⟩ := map_eq_some_iff.1 ended
      obtain ⟨succeeded, rfl⟩ := Prod.mk.inj ended
      cases result with
      | error e => cases succeeded
      | ok s =>
        obtain ⟨kept, roots⟩ := connectTransactions_checked (quiet_afterReads quiet) now
        refine ⟨kept, roots.trans ?_⟩
        rw [rest]
        exact Prod.ext (env.stateRoot_stateAt _) (env.utxoRoot_utxoAt _)

end NodeEnv

/-- The parts of the node that a block that is not connected may not change. -/
structure NodeEnv.Untouched (env : NodeEnv) (before after : NodeState) : Prop where
  coins : after.coins = before.coins
  bestBlock : after.bestBlock = before.bestBlock
  roots : env.roots after.state = env.roots before.state
  deleteAddresses : after.state.deleteAddresses = before.state.deleteAddresses
  waiting : ∀ hashTx, after.results.waiting hashTx = before.results.waiting hashTx
  blocktree : after.blocktree = before.blocktree

namespace NodeEnv

variable {env : NodeEnv} {prev : PrevIndex} {node : NodeState}

theorem db_addResult (s : StorageResults) (hash : H256) (result : List TransactionReceiptInfo) :
    (s.addResult hash result).db = s.db := by
  unfold addResult
  split <;> rfl

theorem untouched_putBack {left : ConnectNode} (idle : node.state.deleteAddresses = [])
    (waiting : ∀ hashTx, node.results.waiting hashTx = none)
    (quiet : Quiet node.blocktree (fun results => results.db = node.results.db) left) :
    env.Untouched node { node with toConnectNode := env.putBack (env.roots node.state) left } where
  coins := rfl
  bestBlock := rfl
  roots := roots_setRoots_roots node.state left
  deleteAddresses := quiet.deleteAddresses.trans idle.symm
  waiting hashTx := by
    rw [waiting hashTx, StorageResults.waiting]
    split <;> rfl
  blocktree := quiet.blocktree

/-- On a node where no account waits to be deleted: a block that `ConnectTip` or `TestBlockValidity`
rejects leaves everything if no receipt waits, and a block that `TestBlockValidity` accepts if the
contract state is the one recorded for the tip. -/
theorem unconnected_block_leaves_node (chain : ActiveChain) (block : CBlock)
    (idle : node.state.deleteAddresses = []) :
    ((∀ hashTx, node.results.waiting hashTx = none) → ∀ after,
      env.connectTip chain prev block node = some (false, after) ∨
        env.testBlockValidity chain prev block node = some (false, after) →
      env.Untouched node after) ∧
    (env.previousRoots prev = env.roots node.state → ∀ after,
      env.testBlockValidity chain prev block node = some (true, after) → env.Untouched node after) := by
  have fails {fJustCheck : Bool} {e : Rejection} {left : ConnectNode}
      (waiting : ∀ hashTx, node.results.waiting hashTx = none)
      (failed : (env.connectBlock fJustCheck chain prev node.coins block).exec node.toConnectNode =
        some (.error e, left)) :
      env.Untouched node { node with toConnectNode := env.putBack (env.roots node.state) left } := by
    refine untouched_putBack idle waiting (failsKeeping_connectBlock
      (fun _ s hash result same => ?_) chain prev node.coins block ⟨rfl, rfl, idle⟩ failed)
    exact (db_addResult s hash result).trans same
  refine ⟨fun waiting after ended => ?_, fun recorded after ended => ?_⟩
  · rcases ended with ended | ended
    · unfold connectTip at ended
      split at ended
      · cases ended
      · rename_i failed
        cases ended
        exact fails waiting failed
      · cases ended
    · unfold testBlockValidity at ended
      split at ended
      · cases ended
        exact ⟨rfl, rfl, rfl, rfl, fun _ => rfl, rfl⟩
      · split at ended
        · cases ended
        · rename_i failed
          cases ended
          exact fails waiting failed
        · cases ended
  · unfold testBlockValidity at ended
    split at ended
    · cases ended
    · split at ended
      · cases ended
      · cases ended
      · rename_i checked
        cases ended
        have quiet : Quiet node.blocktree (fun results => results = node.results) node.toConnectNode :=
          ⟨rfl, rfl, idle⟩
        obtain ⟨kept, roots⟩ := connectBlock_checked quiet recorded checked
        exact ⟨rfl, rfl, roots, kept.deleteAddresses.trans idle.symm,
          fun _ => by rw [kept.results], kept.blocktree⟩

/-- A node that logs events, for concrete blocks; the account trie has root 2 if there is an account 7,
and root 1 otherwise. -/
def sample : NodeEnv where
  toConnectEnv := { ConnectEnv.sample with
    computeHash := fun tx => (((tx.vout.map CTxOut.nValue).headD 0).toNat + 10) % 2 ^ 256
    hashHeader := fun header => header.hashMerkleRoot % 2 ^ 256
    stateRoot := fun trie => if (trie 7).isSome then 2 else 1
    utxoRoot := fun _ => 1 }
  fLogEvents := true
  emptyRoot := 1
  stateAt root a := if root = 2 ∧ a = 7 then some ⟨0#256, 0#256, fun _ => 0#256, []⟩ else none
  utxoAt _ _ := none
  writeUndoData _ := true
  contextualChecks _ := .ok ()
  computeHash_lt _ := Nat.mod_lt _ (Nat.two_pow_pos 256)
  hashHeader_lt _ := Nat.mod_lt _ (Nat.two_pow_pos 256)
  stateRoot_stateAt trie := by
    dsimp only
    split <;> rfl
  utxoRoot_utxoAt _ := rfl

def sampleNode : NodeState :=
  ⟨⟨ArtaxState.twoContracts, ⟨.empty, .empty⟩, .empty⟩, ConnectEnv.twoCoins, 7⟩

/-- A block with a call that lacks the transaction its execution returns. -/
def callBlock : CBlock := sample.blockOf [ConnectEnv.sampleCoinbase, ConnectEnv.callingTx]

/-- The call of a block is executed and its receipt added before `ConnectTip` rejects the block for the
transaction it lacks, which `TestBlockValidity` does not ask for; both leave the node as it was. -/
theorem unconnected_block_leaves_node_call :
    (∃ after, sample.connectTip [] ⟨999, 0, 2, 1, 0⟩ callBlock sampleNode = some (false, after) ∧
      sample.Untouched sampleNode after) ∧
    ∃ after, sample.testBlockValidity [] ⟨999, 0, 2, 1, 0⟩ callBlock sampleNode = some (true, after) ∧
      sample.Untouched sampleNode after := by
  have rejected : (sample.connectTip [] ⟨999, 0, 2, 1, 0⟩ callBlock sampleNode).map Prod.fst =
      some false := by decide +kernel
  have tested : (sample.testBlockValidity [] ⟨999, 0, 2, 1, 0⟩ callBlock sampleNode).map Prod.fst =
      some true := by decide +kernel
  obtain ⟨⟨_, after⟩, ended, rfl⟩ := map_eq_some_iff.1 rejected
  obtain ⟨⟨_, after'⟩, passed, rfl⟩ := map_eq_some_iff.1 tested
  have kept := @unconnected_block_leaves_node sample ⟨999, 0, 2, 1, 0⟩ sampleNode [] callBlock rfl
  exact ⟨⟨after, ended, kept.1 (fun _ => rfl) after (.inl ended)⟩, after', passed,
    kept.2 (by decide +kernel) after' passed⟩

/-- What `TestBlockValidity` and `ConnectTip` change on other nodes. Where the contract state is not
the recorded one, an accepted block leaves the recorded roots; a rejected block drops a receipt that
waited, and the accounts that waited to be deleted. -/
theorem unsettled_node_is_changed :
    (∃ after, sample.testBlockValidity [] ⟨999, 0, 1, 1, 0⟩ callBlock sampleNode =
        some (true, after) ∧
      sample.roots sampleNode.state = (2, 1) ∧ sample.roots after.state = (1, 1)) ∧
    (∃ after, sample.connectTip [] ⟨999, 0, 2, 1, 0⟩ callBlock
        { sampleNode with results := sampleNode.results.addResult 5 [] } = some (false, after) ∧
      (sampleNode.results.addResult 5 []).waiting 5 = some [] ∧
      (after.results.waiting 5).isNone = true) ∧
    ∃ after, sample.connectTip [] ⟨999, 0, 2, 1, 0⟩ callBlock
        { sampleNode with state := { sampleNode.state with deleteAddresses := [9] } } =
        some (false, after) ∧ after.state.deleteAddresses = [] := by
  refine ⟨(exists_ended ?_).imp fun after ended => ⟨ended.1, by decide +kernel, ended.2⟩,
    (exists_ended ?_).imp fun after ended => ⟨ended.1, rfl, ended.2⟩, exists_ended ?_⟩ <;>
    decide +kernel

/-- The block with the transaction that the execution returns. -/
def condensedBlock : CBlock :=
  sample.blockOf [ConnectEnv.sampleCoinbase, ConnectEnv.callingTx, { ConnectEnv.condensedTx with
    vin := [⟨⟨11, 0⟩, CScript.opSpend, 0xffffffff⟩, ⟨⟨3, 0⟩, CScript.opSpend, 0xffffffff⟩] }]

/-- The block with a call is connected as without effects, and the two agree about the contract state
that the call leaves. -/
theorem endsAs_connectBlock_call : ∃ s left,
    (sample.connectBlock false [] ⟨999, 0, 2, 1, 0⟩ sampleNode.coins condensedBlock).exec
        sampleNode.toConnectNode = some (.ok (some s), left) ∧
      (sample.reading sampleNode.blocktree).connectBlock [] ⟨999, 0, 2, 1, 0⟩ sampleNode.coins
        sampleNode.state condensedBlock = .ok (some s) ∧ s.state = left.state := by
  have passed : ((sample.connectBlock false [] ⟨999, 0, 2, 1, 0⟩ sampleNode.coins
      condensedBlock).exec sampleNode.toConnectNode).map (fun ended =>
        ended.1.toOption.any Option.isSome) = some true := by decide +kernel
  obtain ⟨⟨result, left⟩, ended, connects⟩ := map_eq_some_iff.1 passed
  cases result with
  | error e => cases connects
  | ok connected =>
    cases connected with
    | none => cases connects
    | some s =>
      obtain ⟨_, found, rfl, state⟩ := (endsAs_connectBlock rfl rfl).1 ended
      exact ⟨s, left, ended, found, state s rfl⟩

end NodeEnv
end Artax
