import Artax.Aal.Accounted
import Artax.Validation.Connected
import Mathlib.Logic.Equiv.List
import Mathlib.Data.Countable.Basic

/-!
# The transactions of a connected block

`ConnectBlock` collects the block it expects: the transactions without `OP_SPEND`, each contract
transaction followed by its computed transfers. If hashing loses nothing, the block is the expected
one up to a repeated end.
-/

namespace Artax

open Util ArtaxState List

/-- Hashing loses nothing: transactions, pairs and merkle roots of headers can be recovered, and no
transaction hash is that of a pair. -/
structure CheckEnv.IdealHashes (env : CheckEnv) : Prop where
  transactions : Function.Injective env.computeHash
  joins : Util.Merkle.Joins env.pairHash
  apart : ∀ tx left right, env.computeHash tx ≠ env.pairHash left right
  headers : ∀ header header', env.hashHeader header = env.hashHeader header' →
    header.hashMerkleRoot = header'.hashMerkleRoot

namespace ConnectEnv

def computed (env : ConnectEnv) (r : Round) (view : CoinsView) (state : ArtaxState)
    (tx : CTransaction) : ArtaxState × List CTransaction :=
  if tx.isExecuted then
    match env.checkContract r.minGasPrice r.blockGasLimit view r.block tx with
    | .error _ => (state, [])
    | .ok txs =>
      match executeContract r.ctx r.info txs state with
      | .error _ => (state, [])
      | .ok (state, bcer) => (state, bcer.valueTransfers)
  else (state, [])

def expectedVtx (env : ConnectEnv) (r : Round) :
    List CTransaction → CoinsView → ArtaxState → List CTransaction
  | [], _, _ => []
  | tx :: rest, view, state =>
    (if tx.hasOpSpend then [] else tx :: (env.computed r view state tx).2) ++
      env.expectedVtx r rest (view.updateCoins env.computeHash tx r.nHeight).1
        (env.computed r view state tx).1

def computedVtx (env : ConnectEnv) (r : Round) :
    List CTransaction → CoinsView → ArtaxState → List CTransaction
  | [], _, _ => []
  | tx :: rest, view, state =>
    (env.computed r view state tx).2 ++
      env.computedVtx r rest (view.updateCoins env.computeHash tx r.nHeight).1
        (env.computed r view state tx).1

def viewsOf (env : ConnectEnv) (nHeight : Nat) :
    List CTransaction → CoinsView → List (CTransaction × CoinsView)
  | [], _ => []
  | tx :: rest, view =>
    (tx, view) :: env.viewsOf nHeight rest (view.updateCoins env.computeHash tx nHeight).1

variable {env : ConnectEnv} {r : Round}

variable {tx : CTransaction} {txs : List CTransaction}

theorem computed_of_connected {s s' : Connecting} (connected : TxConnected env r s tx s') :
    s'.state = (env.computed r s.view s.state tx).1 ∧
      s'.checkVtx = s.checkVtx ++
        if tx.hasOpSpend then [] else tx :: (env.computed r s.view s.state tx).2 := by
  unfold computed
  cases executes : tx.isExecuted with
  | true =>
    obtain ⟨txs, bcer, executed⟩ := connected.executed executes
    have plain : tx.hasOpSpend = false := by
      simpa using (Bool.and_eq_true_iff.1 executes).2
    simp only [executed.decoded, executed.ran, if_true, plain, Bool.false_eq_true, if_false]
    exact ⟨trivial, by simp [executed.vtx]⟩
  | false =>
    have rest := connected.unexecuted executes
    rw [if_neg Bool.false_ne_true]
    exact ⟨rest.state, rest.vtx⟩

theorem checkVtx_of_loop {s s' : Connecting} (passed : txs.foldlM (env.connectTx r) s = .ok s') :
    s'.checkVtx = s.checkVtx ++ env.expectedVtx r txs s.view s.state := by
  induction txs generalizing s with
  | nil =>
    cases passed
    exact (append_nil _).symm
  | cons tx rest ih =>
    rw [foldlM_cons, bind_eq_ok] at passed
    obtain ⟨middle, now, later⟩ := passed
    have connected := txConnected_of_connectTx now
    obtain ⟨state, vtx⟩ := computed_of_connected connected
    rw [ih later, vtx, state, connected.view, expectedVtx, append_assoc]

variable {view : CoinsView}

theorem spends_of_loop {s s' : Connecting} (passed : txs.foldlM (env.connectTx r) s = .ok s')
    (member : (tx, view) ∈ env.viewsOf r.nHeight txs s.view) (plain : tx.isCoinBase = false) :
    checkContractSpends view tx = .ok () := by
  induction txs generalizing s with
  | nil => cases member
  | cons head rest ih =>
    rw [foldlM_cons, bind_eq_ok] at passed
    obtain ⟨middle, now, later⟩ := passed
    have connected := txConnected_of_connectTx now
    rcases mem_cons.1 member with same | member
    · cases same
      exact connected.spends plain
    · exact ih later (connected.view ▸ member)

theorem mem_of_mem_viewsOf {nHeight : Nat} {found : CoinsView}
    (member : (tx, found) ∈ env.viewsOf nHeight txs view) : tx ∈ txs := by
  induction txs generalizing view with
  | nil => cases member
  | cons head rest ih =>
    rcases mem_cons.1 member with same | later
    · cases same
      exact mem_cons_self
    · exact mem_cons_of_mem _ (ih later)

theorem mem_expectedVtx {state : ArtaxState} (member : tx ∈ env.expectedVtx r txs view state) :
    (tx ∈ txs ∧ tx.hasOpSpend = false) ∨ tx ∈ env.computedVtx r txs view state := by
  induction txs generalizing view state with
  | nil => cases member
  | cons head rest ih =>
    rw [expectedVtx, mem_append] at member
    rw [computedVtx, mem_append]
    rcases member with here | later
    · by_cases spend : head.hasOpSpend = true
      · rw [if_pos spend] at here
        cases here
      · rw [if_neg spend] at here
        rcases mem_cons.1 here with rfl | transfer
        · exact .inl ⟨mem_cons_self, Bool.eq_false_iff.2 spend⟩
        · exact .inr (.inl transfer)
    · rcases ih later with ⟨listed, plain⟩ | computed
      · exact .inl ⟨mem_cons_of_mem _ listed, plain⟩
      · exact .inr (.inr computed)

theorem isNull_of_mem_computedVtx {state : ArtaxState}
    (member : tx ∈ env.computedVtx r txs view state) : tx.isNull = false := by
  induction txs generalizing view state with
  | nil => cases member
  | cons head rest ih =>
    rcases mem_append.1 member with here | later
    · unfold computed at here
      repeat' split at here
      all_goals try cases here
      rename_i ran
      obtain ⟨results, _, processed⟩ := executeContract_eq_ok ran
      rw [ByteCodeExec.valueTransfers_processingResults processed] at here
      rw [nil_append] at here
      obtain ⟨pair, _, made⟩ := mem_flatMap.1 here
      rcases mem_append.1 made with refund | transfer
      · split at refund
        · rw [mem_singleton.1 refund]
          rfl
        · cases refund
      · split at transfer
        · cases transfer
        · rename_i nonzero
          rw [mem_singleton.1 transfer]
          cases null : pair.2.tx.isNull with
          | false => rfl
          | true => exact absurd (by rw [CTransaction.getHash, if_pos null]) nonzero
    · exact ih later

/-- The genesis block is a coinbase alone, without contract opcodes, and its header is the one that
`hashGenesisBlock` is the hash of. -/
structure IsGenesis (env : ConnectEnv) (genesis : CBlock) : Prop where
  hash : env.params.hashGenesisBlock = env.hashHeader genesis.toCBlockHeader
  root : genesis.hashMerkleRoot = (blockMerkleRoot env.computeHash env.pairHash genesis.vtx).1
  alone : ∃ tx, genesis.vtx = [tx] ∧ tx.isNull = false

theorem prefix_of_checked {block : CBlock} (ideal : env.IdealHashes)
    (checked : env.BlockChecked block) {vtx : List CTransaction} (some : vtx ≠ [])
    (present : ∀ tx ∈ vtx, tx.isNull = false)
    (root : block.hashMerkleRoot = (blockMerkleRoot env.computeHash env.pairHash vtx).1) :
    block.vtx <+: vtx ∧ vtx ⊆ block.vtx := by
  obtain ⟨rest, split, _⟩ := checked.vtx_eq
  refine prefix_of_blockMerkleRoot_eq ideal.transactions ideal.joins ideal.apart
    (split ▸ cons_ne_nil _ _) some (fun tx member => checked.isNull_of_mem member) present
    checked.unmutated (checked.root.symm.trans root)

theorem expectedVtx_ne_nil {block : CBlock} (checked : env.BlockChecked block) (view : CoinsView)
    (state : ArtaxState) : env.expectedVtx r block.vtx view state ≠ [] := by
  obtain ⟨rest, split, _, plain, _⟩ := checked.vtx_eq
  rw [split, expectedVtx, plain, if_neg Bool.false_ne_true]
  exact cons_ne_nil _ _

variable {chain : ActiveChain} {prev : PrevIndex} {view : CoinsView} {state : ArtaxState}
  {block : CBlock} {s : Connecting}

theorem prefix_of_connected (ideal : env.IdealHashes) (checked : env.BlockChecked block)
    (connected : BlockConnected env chain prev view state block r s) :
    block.vtx <+: env.expectedVtx r block.vtx view state ∧
      env.expectedVtx r block.vtx view state ⊆ block.vtx := by
  have collected := checkVtx_of_loop connected.loop
  simp only [nil_append] at collected
  have concluded := connected.concluded
  simp only [concludeBlock, bind_eq_ok] at concluded
  obtain ⟨_, _, concluded⟩ := concluded
  split at concluded
  · cases concluded
  · simp only [bind_eq_ok, require_eq_ok, beq_iff_eq] at concluded
    obtain ⟨_, same, _⟩ := concluded
    have root := ideal.headers _ _ same
    rw [(block_round connected.round).1] at root
    refine prefix_of_checked ideal checked (expectedVtx_ne_nil checked view state) ?_
      (collected ▸ root.symm)
    intro tx member
    rcases mem_expectedVtx member with ⟨listed, _⟩ | computed
    · exact checked.isNull_of_mem listed
    · exact isNull_of_mem_computedVtx computed

theorem expectedVtx_genesis (ideal : env.IdealHashes) {genesis : CBlock}
    (first : env.IsGenesis genesis) (checked : env.BlockChecked block)
    (same : env.hashHeader block.toCBlockHeader = env.params.hashGenesisBlock) (r : Round)
    (view : CoinsView) (state : ArtaxState) :
    block.vtx = env.expectedVtx r block.vtx view state ∧ block.vtx = [block.coinbase] := by
  obtain ⟨tx, alone, present⟩ := first.alone
  have root := ideal.headers _ _ (same.trans first.hash)
  obtain ⟨begins, _⟩ := prefix_of_checked ideal checked (by rw [alone]; exact cons_ne_nil _ _)
    (by simpa [alone] using present) (root.trans first.root)
  obtain ⟨rest, split, coinbase, spend, contract, _⟩ := checked.vtx_eq
  have single : rest = [] := by
    have bound := begins.length_le
    rw [split, alone, length_cons, length_singleton] at bound
    exact length_eq_zero_iff.1 (by omega)
  subst single
  refine ⟨?_, split⟩
  generalize block.coinbase = head at *
  rw [split]
  simp [expectedVtx, computed, spend, CTransaction.isExecuted, contract]

/-- Every accepted block is exactly the one expected, if that repeats no transaction, and every input
that spends a contract output belongs to a computed value transfer. -/
theorem connected_block_is_expected {genesis : CBlock} {result : Option Connecting}
    (ideal : env.IdealHashes) (first : env.IsGenesis genesis) (honest : env.HonestMark block)
    (accepted : env.connectBlock chain prev view state block = .ok result) :
    ∃ r, env.round chain (prev.nHeight + 1) state block = some r ∧
      ((env.expectedVtx r block.vtx view state).Nodup →
        block.vtx = env.expectedVtx r block.vtx view state) ∧
      ∀ tx found, (tx, found) ∈ env.viewsOf r.nHeight block.vtx view → tx.isCoinBase = false →
        ∀ txin ∈ tx.vin, (found.accessCoin txin.prevout).out.scriptPubKey.isContract = true →
          tx ∈ env.computedVtx r block.vtx view state := by
  rcases connected_of_connectBlock accepted with ⟨r, round, passed, same, _⟩ | ⟨r, s, connected, _⟩
  · have checked := env.blockChecked_of_checkBlock honest passed
    obtain ⟨exact', alone⟩ := expectedVtx_genesis ideal first checked same r view state
    obtain ⟨_, _, coinbase, _⟩ := checked.vtx_eq
    refine ⟨r, round, fun _ => exact', fun tx found member plain => ?_⟩
    have listed := mem_of_mem_viewsOf member
    rw [alone, mem_singleton] at listed
    rw [listed, coinbase] at plain
    cases plain
  · have checked := env.blockChecked_of_checkBlock honest connected.checked
    obtain ⟨begins, repeats⟩ := prefix_of_connected ideal checked connected
    refine ⟨r, connected.round, fun distinct => ?_, fun tx found member plain txin input contract => ?_⟩
    · -- what follows the block in the expected transactions would be repeated
      obtain ⟨rest, appended⟩ := begins
      cases rest with
      | nil => rw [← appended, append_nil]
      | cons tx more =>
        rw [← appended] at distinct repeats
        have again := repeats (mem_append_right _ mem_cons_self)
        exact (disjoint_of_nodup_append distinct again mem_cons_self).elim
    · have passed := spends_of_loop connected.loop member plain
      simp only [checkContractSpends, require_eq_ok, all_eq_true, Bool.or_eq_true,
        Bool.not_eq_true'] at passed
      rcases passed txin input with spend | free
      · have opSpend : tx.hasOpSpend := any_eq_true.2 ⟨txin, input, spend⟩
        rcases mem_expectedVtx (begins.subset (mem_of_mem_viewsOf member)) with ⟨_, not⟩ | computed
        · rw [opSpend] at not
          cases not
        · exact computed
      · rw [contract] at free
        cases free

/-- Transactions can be numbered. -/
instance : Countable CTransaction := by
  let bytes (data : Bytes) : List Nat := data.map UInt8.toNat
  let encode (tx : CTransaction) : List (Nat × Nat × List Nat × Nat) × List (Int × List Nat) ×
      Int × Nat :=
    (tx.vin.map fun txin => (txin.prevout.hash, txin.prevout.n.toNat, bytes txin.scriptSig,
      txin.nSequence.toNat),
      tx.vout.map fun txout => (txout.nValue, bytes txout.scriptPubKey), tx.nVersion,
      tx.nLockTime.toNat)
  have bytesInjective : Function.Injective bytes :=
    Function.Injective.list_map fun _ _ => UInt8.toNat_inj.1
  have inputs : Function.Injective fun txin : CTxIn => (txin.prevout.hash, txin.prevout.n.toNat,
      bytes txin.scriptSig, txin.nSequence.toNat) := by
    rintro ⟨⟨hash, n⟩, script, sequence⟩ ⟨⟨hash', n'⟩, script', sequence'⟩ same
    simp only [Prod.mk.injEq, UInt32.toNat_inj] at same
    obtain ⟨rfl, rfl, scripts, rfl⟩ := same
    rw [bytesInjective scripts]
  have outputs : Function.Injective fun txout : CTxOut =>
      (txout.nValue, bytes txout.scriptPubKey) := by
    rintro ⟨value, script⟩ ⟨value', script'⟩ same
    simp only [Prod.mk.injEq] at same
    obtain ⟨rfl, scripts⟩ := same
    rw [bytesInjective scripts]
  refine Function.Injective.countable (f := encode) ?_
  rintro ⟨vin, vout, version, lock⟩ ⟨vin', vout', version', lock'⟩ same
  simp only [encode, Prod.mk.injEq, UInt32.toNat_inj] at same
  obtain ⟨first, second, rfl, rfl⟩ := same
  rw [inputs.list_map first, outputs.list_map second]

noncomputable def idealSample : ConnectEnv :=
  { sample with
    computeHash := idealHash 2 [callingTx, condensedTx, sampleCoinbase]
    pairHash := idealPair
    params := { ConsensusParams.main with hashGenesisBlock := 9 } }

noncomputable def callingBlock : CBlock :=
  idealSample.blockOf [sampleCoinbase, callingTx, condensedTx]

theorem idealHashes_idealSample : idealSample.IdealHashes :=
  ⟨idealHash_injective _ _, joins_idealPair, idealHash_ne_idealPair _ _,
    fun _ _ same => same⟩

/-- The block with the call is accepted, and is the expected one. -/
theorem callingBlock_is_expected :
    ∃ r, idealSample.round [] 1000 twoContracts callingBlock = some r ∧
      callingBlock.vtx =
        idealSample.expectedVtx r callingBlock.vtx twoCoins twoContracts := by
  have connects : (idealSample.connectBlock [] samplePrev twoCoins twoContracts
      callingBlock).toBool := by decide +kernel
  have genesis : idealSample.IsGenesis (idealSample.blockOf [sampleCoinbase]) :=
    ⟨by decide +kernel, rfl, sampleCoinbase, rfl, rfl⟩
  have distinct : (idealSample.round [] 1000 twoContracts callingBlock).map
      (fun r => decide (idealSample.expectedVtx r callingBlock.vtx twoCoins
        twoContracts).Nodup) = some true := by decide +kernel
  obtain ⟨result, accepted⟩ := exists_ok connects
  obtain ⟨r, round, same, _⟩ := connected_block_is_expected idealHashes_idealSample genesis
    (fun marked => by cases marked) accepted
  have found : idealSample.round [] 1000 twoContracts callingBlock = some r := round
  rw [found, Option.map_some, Option.some.injEq, decide_eq_true_eq] at distinct
  exact ⟨r, found, same distinct⟩

end ConnectEnv
end Artax
