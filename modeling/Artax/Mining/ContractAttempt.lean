import Artax.Mining.Selection
import Artax.Validation.GasAccounting
import Artax.Validation.Rejected

/-!
# What an attempt to add a contract changes

`AttemptToAddContractToBlock` executes a contract before it knows whether the block has room for it.
A failed attempt leaves the assembler and the state roots; a successful one does not cost the block
more in refunds than the transaction pays.
-/

namespace Artax

open ByteCodeExec List
open Util (bind_eq_ok require require_eq_ok)

/-- The loop of `AcceptToMemoryPoolWorker` over the virtual machine transactions, from the cost of
the gas and the smallest gas price before. -/
def checkMempoolGas (minMempoolGasLimit : Int) (minGasPrice blockGasLimit : UInt64) (nFees : CAmount) :
    List ArtaxTransaction → U256 → U256 → U256 → Except Rejection (U256 × U256)
  | [], sumGas, _, txMinGasPrice => .ok (sumGas, txMinGasPrice)
  | qtx :: rest, sumGas, gasAllTxs, txMinGasPrice => do
    let sumGas := sumGas + qtx.gas * qtx.gasPrice
    let gasAllTxs := gasAllTxs + qtx.gas
    let v := qtx.version
    require (decide (sumGas ≤ BitVec.ofNat 256 (2 ^ 63 - 1))) ⟨100, "bad-tx-gas-stipend-overflow"⟩
    require (decide (sumGas ≤ BitVec.ofInt 256 nFees)) ⟨100, "bad-txns-fee-notenough"⟩
    require (v.format == 0) ⟨100, "bad-tx-version-format"⟩
    require (v.rootVM == 1) ⟨100, "bad-tx-version-rootvm"⟩
    require (v.vmVersion == 0) ⟨100, "bad-tx-version-vmversion"⟩
    require (v.flagOptions == 0) ⟨100, "bad-tx-version-flags"⟩
    require (!decide ((qtx.gas.toNat : Int) < minMempoolGasLimit))
      ⟨100, "bad-tx-too-little-mempool-gas"⟩
    require (!(decide (qtx.gas.toNat < minimumGasLimit) && v.rootVM != 0)) ⟨100, "bad-tx-too-little-gas"⟩
    require (decide (qtx.gas.toNat ≤ 2 ^ 32 - 1)) ⟨100, "bad-tx-too-much-gas"⟩
    require (decide (gasAllTxs ≤ BitVec.ofNat 256 blockGasLimit.toNat))
      ⟨1, "bad-txns-gas-exceeds-blockgaslimit"⟩
    require (!(v.rootVM != 0 && decide (UInt64.ofBitVec (qtx.gasPrice.setWidth 64) < minGasPrice)))
      ⟨100, "bad-tx-low-gas-price"⟩
    checkMempoolGas minMempoolGasLimit minGasPrice blockGasLimit nFees rest sumGas gasAllTxs
      (if txMinGasPrice = 0 ∨ qtx.gasPrice < txMinGasPrice then qtx.gasPrice else txMinGasPrice)

variable {txs : List ArtaxTransaction}

theorem gas_of_checkMempoolGas {minMempoolGasLimit : Int} {minGasPrice blockGasLimit : UInt64}
    {nFees : Int} {sumGas gasAllTxs txMinGasPrice : U256} {result : U256 × U256}
    (parsed : ∀ tx ∈ txs, tx.GasParsed) (fee : 0 ≤ nFees) (range : nFees < 2 ^ 63)
    (cost : (sumGas.toNat : Int) ≤ nFees) (amount : gasAllTxs.toNat ≤ blockGasLimit.toNat)
    (passed : checkMempoolGas minMempoolGasLimit minGasPrice blockGasLimit nFees txs sumGas gasAllTxs txMinGasPrice = .ok result) :
    ((sumGas.toNat + gasCost txs : Nat) : Int) ≤ nFees ∧
      gasAllTxs.toNat + gasTotal txs ≤ blockGasLimit.toNat := by
  induction txs generalizing sumGas gasAllTxs txMinGasPrice with
  | nil => exact ⟨by simpa [gasCost] using cost, by simpa [gasTotal] using amount⟩
  | cons tx rest ih =>
    simp only [checkMempoolGas, bind_eq_ok, require_eq_ok, decide_eq_true_eq] at passed
    obtain ⟨_, _, _, covered, _, _, _, _, _, _, _, _, _, _, _, _, _, _, _, within, _, _, later⟩ :=
      passed
    have step := gasSums_step (parsed tx mem_cons_self) fee range cost amount covered within
    exact gasSums_cons step (ih (fun t member => parsed t (mem_cons_of_mem _ member)) step.paid
      step.used later)

theorem exactGasUsed_le_gasTotal {results : List ResultExecute}
    (within : List.Forall₂ WithinLimit txs results) :
    exactGasUsed (txs.zip results) ≤ gasTotal txs := by
  induction within with
  | nil => exact Nat.le_refl _
  | cons head _ ih =>
    simp only [exactGasUsed, gasTotal, zip_cons_cons, map_cons, sum_cons] at ih ⊢
    exact Nat.add_le_add (BitVec.le_def.1 head) ih

namespace MinerEnv

variable {σ : Type}

/-- What is assumed of what the assembler asks: a root that was read can be set again, the clock does
not touch the contract state, the gas limits are governed, and results are processed as
`ByteCodeExec` does, within the gas given. -/
structure Lawful (env : MinerEnv σ) : Prop where
  roots_setRoots : ∀ world old, env.roots (env.setRoots world (env.roots old)) = env.roots old
  roots_getAdjustedTime : ∀ world, env.roots (env.getAdjustedTime world).2 = env.roots world
  hardBlockGasLimit : env.hardBlockGasLimit ≤ maxBlockGasLimitDGP
  parsed : ∀ world vtx tx txs, env.extractionArtaxTransactions world vtx tx = some txs →
    ∀ qtx ∈ txs, qtx.GasParsed
  executed : ∀ world vtx tx txs limit left result,
    env.extractionArtaxTransactions world vtx tx = some txs →
    env.executeContract world vtx txs limit = (left, some result) →
      ∃ ctx results, List.Forall₂ WithinLimit txs results ∧
        processingResults ctx (txs.zip results) {} = some result

/-- The entry of the pool passed the checks of its contracts when it was accepted. -/
def Admitted (env : MinerEnv σ) (entry : CTxMemPoolEntry) : Prop :=
  moneyRange entry.nFee = true ∧ ∀ world vtx txs,
    env.extractionArtaxTransactions world vtx entry.tx = some txs →
      ∃ minMempoolGasLimit minGasPrice blockGasLimit sums, blockGasLimit ≤ maxBlockGasLimitDGP ∧
        checkMempoolGas minMempoolGasLimit minGasPrice blockGasLimit entry.nFee txs 0#256 0#256 0#256 =
          .ok sums

variable {env : MinerEnv σ} {pool : CTxMemPool} {id : H256} {a : BlockAssembler} {world : σ}

theorem Lawful.roots_pastLimit (lawful : env.Lawful) (buffer : Int) (world : σ) :
    env.roots (env.pastLimit buffer world).2 = env.roots world := by
  unfold pastLimit
  split_ifs
  · rfl
  · exact lawful.roots_getAdjustedTime world

theorem usedGas_le_of_gasAllowed {usedGas : UInt64} {qtx : ArtaxTransaction}
    {rest : List ArtaxTransaction} (parsed : qtx.GasParsed)
    (allowed : env.gasAllowed usedGas (qtx :: rest) 0#256 = true) :
    usedGas.toNat ≤ env.softBlockGasLimit.toNat := by
  simp only [gasAllowed] at allowed
  split_ifs at allowed with _ full
  have bound := BitVec.le_def.1 (BitVec.not_lt.1 full)
  have small := usedGas.toNat_lt
  have limit := parsed.limit
  simp only [BitVec.toNat_add, BitVec.toNat_ofNat] at bound
  rw [Nat.mod_eq_of_lt (a := usedGas.toNat) (by omega), Nat.mod_eq_of_lt (by omega)] at bound
  exact (Nat.le_add_right _ _).trans (bound.trans (Nat.mod_le _ _))

theorem softBlockGasLimit_le (env : MinerEnv σ) : env.softBlockGasLimit ≤ env.hardBlockGasLimit := by
  change (if env.stakerSoftBlockGasLimit ≤ env.hardBlockGasLimit then env.stakerSoftBlockGasLimit
    else env.hardBlockGasLimit) ≤ env.hardBlockGasLimit
  split_ifs with lower
  · exact lower
  · exact UInt64.le_refl _

/-- An attempt that fails leaves the assembler, with `vTxFees` and `vTxSigOpsCost` as `added` gives
them, and the roots of the contract state. One that succeeds on an entry of the pool adds the gas
used, within the soft limit, and no more refunds than fees. -/
theorem attemptToAddContractToBlock_effect (lawful : env.Lawful) {added : Bool} {a' : BlockAssembler}
    {left : σ} (ran : env.attemptToAddContractToBlock pool id a world = (added, a', left)) :
    (added = false → a' = a ∧ env.roots left = env.roots world) ∧
    (added = true → env.Admitted (pool.entry id) → ∃ now txs result ctx results,
      env.executeContract now a.vtx txs env.hardBlockGasLimit = (left, some result) ∧
        processingResults ctx (txs.zip results) {} = some result ∧
        a'.bceResult.usedGas.toNat = a.bceResult.usedGas.toNat + exactGasUsed (txs.zip results) ∧
        a'.bceResult.usedGas ≤ env.softBlockGasLimit ∧
        a.nFees - a.bceResult.refundSender ≤ a'.nFees - a'.bceResult.refundSender) := by
  obtain ⟨_, failed, back⟩ |
      ⟨now, txs, result, _, succeeded, extracted, allowed, executed, fits, _⟩ :=
    env.attemptToAddContractToBlock_cases pool id a world
  · cases ran.symm.trans failed
    refine ⟨fun _ => ⟨rfl, ?_⟩, nofun⟩
    obtain rfl | ⟨_, rfl⟩ := back
    · exact lawful.roots_pastLimit _ _
    · rw [lawful.roots_setRoots, lawful.roots_pastLimit]
  cases ran.symm.trans succeeded
  refine ⟨nofun, fun _ ⟨money, accepted⟩ => ?_⟩
  obtain ⟨_, _, blockGasLimit, _, capped, passed⟩ := accepted _ _ _ extracted
  obtain ⟨ctx, results, within, processed⟩ := lawful.executed _ _ _ _ _ _ _ extracted executed
  have parsed := lawful.parsed _ _ _ _ extracted
  obtain ⟨low, high⟩ := (moneyRange_iff _).1 money
  obtain ⟨covered, total⟩ := gas_of_checkMempoolGas parsed low (high.trans_lt (by decide))
    (show ((0#256 : U256).toNat : Int) ≤ _ from low) (show (0#256 : U256).toNat ≤ _ from Nat.zero_le _)
    passed
  have limit : blockGasLimit.toNat ≤ 1000000000 := UInt64.le_iff_toNat_le.1 capped
  rw [show (0#256 : U256).toNat = 0 from rfl, Nat.zero_add] at covered total
  obtain ⟨out, done, exact'⟩ := exactTotals_processingResults ctx parsed within exactTotals_nil
    (by simp only [exactGasUsed, map_nil, sum_nil]; omega)
  cases processed.symm.trans done
  rw [nil_append] at exact'
  have gas : exactGasUsed (txs.zip results) ≤ gasTotal txs := exactGasUsed_le_gasTotal within
  have room : a.bceResult.usedGas.toNat + exactGasUsed (txs.zip results) < 2 ^ 64 := by
    cases txs with
    | nil => simpa [exactGasUsed] using a.bceResult.usedGas.toNat_lt
    | cons qtx rest =>
      have before := usedGas_le_of_gasAllowed (parsed qtx mem_cons_self) allowed
      have soft := UInt64.le_iff_toNat_le.1 env.softBlockGasLimit_le
      have hard : env.hardBlockGasLimit.toNat ≤ 1000000000 :=
        UInt64.le_iff_toNat_le.1 lawful.hardBlockGasLimit
      omega
  refine ⟨now, txs, result, ctx, results, executed, processed, ?_, fits, ?_⟩
  · change (a.bceResult.usedGas + result.usedGas).toNat = _
    rw [UInt64.toNat_add, exact'.usedGas]
    exact Nat.mod_eq_of_lt room
  · have refunds : (exactRefunds (txs.zip results) : Int) ≤ (pool.entry id).nFee :=
      (Int.ofNat_le.2 (exactRefunds_le_gasCost within)).trans covered
    change _ ≤ a.nFees + (pool.entry id).nFee - (a.bceResult.refundSender + result.refundSender)
    rw [exact'.refundSender]
    linarith

end MinerEnv

/-! ## The converter and the execution of a node -/

namespace ArtaxState

variable {ctx : ExecutionContext} {info : EnvInfo} {tx : ArtaxTransaction}

/-- The virtual machine leaves no more gas than it was given. -/
def Frugal (ctx : ExecutionContext) : Prop :=
  ∀ info tx accounts, (ctx.vm info tx accounts).gasLeft ≤ tx.gas

theorem gasUsed_finalizeResult {ran : Executive.Ran} (left : ran.gas ≤ tx.gas) :
    (Executive.finalizeResult ctx tx ran).gasUsed ≤ tx.gas := by
  have half : ((tx.gas - ran.gas) / 2#256).toNat = (tx.gas.toNat - ran.gas.toNat) / 2 := by
    rw [BitVec.toNat_udiv, BitVec.toNat_sub_of_le left]
    rfl
  have within {refund : U256} (few : refund ≤ (tx.gas - ran.gas) / 2#256) :
      tx.gas - (ran.gas + refund) ≤ tx.gas := by
    have few := BitVec.le_def.1 few
    have left := BitVec.le_def.1 left
    have small := tx.gas.isLt
    have sum : (ran.gas + refund).toNat = ran.gas.toNat + refund.toNat := by
      rw [BitVec.toNat_add]
      exact Nat.mod_eq_of_lt (by omega)
    have total : ran.gas + refund ≤ tx.gas := BitVec.le_def.2 (by omega)
    rw [BitVec.le_def, BitVec.toNat_sub_of_le total]
    exact Nat.sub_le _ _
  unfold Executive.finalizeResult Executive.finalGas
  dsimp only
  split_ifs with few
  · exact within few
  · exact within (BitVec.le_refl _)

theorem Frugal.go (frugal : Frugal ctx) {entered : Executive.Entered} {f : Frame}
    {ran : Executive.Ran} (went : Executive.go ctx info tx entered f = some ran) :
    ran.gas ≤ tx.gas := by
  unfold Executive.go at went
  dsimp only at went
  split at went
  · cases went
  · cases went
    exact BitVec.le_def.2 (Nat.zero_le _)
  · cases went
    exact frugal info tx entered.state.account

/-- What an execution reports is within its gas limit. -/
theorem Frugal.execute (frugal : Frugal ctx) {s left : ArtaxState} {res : ResultExecute}
    (ran : execute ctx info tx .committed s = some (left, res)) : WithinLimit tx res := by
  unfold ArtaxState.execute at ran
  split at ran
  · cases ran
  · split at ran
    · cases ran
    · rename_i finished
      cases ran
      obtain ⟨entered, f, ran, performed, concluded⟩ := tryBlock_finished finished
      obtain ⟨rfl, _⟩ := conclude_finished concluded
      have bound : (Executive.finalizeResult ctx tx ran).gasUsed ≤ tx.gas :=
        gasUsed_finalizeResult (frugal.go performed.went)
      unfold WithinLimit reportAddress
      split_ifs <;> exact bound
    · cases ran
      unfold WithinLimit thrownResult reportAddress
      split_ifs <;> exact BitVec.le_refl _

theorem Frugal.performByteCode (frugal : Frugal ctx) {txs : List ArtaxTransaction}
    {s left : ArtaxState} {before results : List ResultExecute}
    (ran : performByteCode ctx info .committed txs s before = some (true, left, results)) :
    ∃ new, results = before ++ new ∧ List.Forall₂ WithinLimit txs new := by
  induction txs generalizing s before with
  | nil =>
    cases ran
    exact ⟨[], (append_nil _).symm, .nil⟩
  | cons tx rest ih =>
    rw [ByteCodeExec.performByteCode] at ran
    split at ran
    · cases ran
    · split at ran
      · cases ran
      · rename_i after res performed
        obtain ⟨new, rfl, within⟩ := ih ran
        refine ⟨res :: new, by rw [append_assoc, singleton_append], .cons ?_ within⟩
        unfold perform at performed
        split at performed
        · cases performed
          exact BitVec.le_def.2 (Nat.zero_le _)
        · exact frugal.execute performed

end ArtaxState

namespace MinerEnv

variable {σ : Type}

/-- The assembler of a node, at a time: contracts are decoded by `ArtaxTxConverter` and executed by
`ByteCodeExec` on the contract state. -/
def onNode (env : MinerEnv σ) (node : NodeEnv) (view : CoinsView) (chain : ActiveChain)
    (schedule : EVMSchedule) (time : Int) : MinerEnv ArtaxState :=
  { env with
    getAdjustedTime := fun state => (time, state)
    extractionArtaxTransactions := fun _ vtx tx =>
      (node.toConnectEnv.converter view { env.header with vtx } tx).extractionArtaxTransactions.map
        Prod.fst
    executeContract := fun state vtx txs blockGasLimit =>
      let ctx := node.toConnectEnv.executionContext chain schedule
      match performByteCode ctx (node.toConnectEnv.buildEVMEnvironment chain { env.header with vtx }
        blockGasLimit) .committed txs state [] with
      | some (true, left, results) => (left, processingResults ctx (txs.zip results) {})
      | some (false, left, _) => (left, none)
      | none => (state, none)
    roots := node.roots
    setRoots := fun state roots => state.setRoots (node.stateAt roots.1) (node.utxoAt roots.2) }

/-- Of the virtual machine it is enough that it leaves no more gas than it was given. -/
theorem lawful_onNode {env : MinerEnv σ} {node : NodeEnv} {chain : ActiveChain}
    {schedule : EVMSchedule} (capped : env.hardBlockGasLimit ≤ maxBlockGasLimitDGP)
    (frugal : ArtaxState.Frugal (node.execution schedule)) (view : CoinsView) (time : Int) :
    (env.onNode node view chain schedule time).Lawful where
  roots_setRoots world old := Prod.ext (node.stateRoot_stateAt _) (node.utxoRoot_utxoAt _)
  roots_getAdjustedTime _ := rfl
  hardBlockGasLimit := capped
  parsed world vtx tx txs extracted := by
    obtain ⟨⟨_, etps⟩, decoded, rfl⟩ := Option.map_eq_some_iff.1 extracted
    exact ArtaxTxConverter.gasParsed_of_extract decoded
  executed world vtx tx txs limit left result _ ran := by
    have frugal : ArtaxState.Frugal (node.toConnectEnv.executionContext chain schedule) := frugal
    unfold onNode at ran
    dsimp only at ran
    split at ran
    · rename_i performed
      obtain ⟨_, processed⟩ := Prod.mk.inj ran
      obtain ⟨new, same, within⟩ := frugal.performByteCode performed
      rw [nil_append] at same
      subst same
      exact ⟨_, _, within, processed⟩
    · cases (Prod.mk.inj ran).2
    · cases (Prod.mk.inj ran).2

/-- A node whose virtual machine leaves 5000 gas. The root of the outputs is the value that contract 7
holds. -/
def leavingNode : NodeEnv :=
  { NodeEnv.sample with
    execution := fun _ => { ExecutionContext.sample (.stop []) with
      vm := fun _ tx _ => ⟨.stop [], if 5000#256 ≤ tx.gas then 5000#256 else 0#256⟩ }
    utxoRoot := fun trie => ((trie 7).map fun vin => vin.value.toNat).getD 0
    utxoAt := fun root a => if a = 7 then some ⟨3, 0, BitVec.ofNat 256 root, true⟩ else none
    utxoRoot_utxoAt := fun trie => by
      cases trie 7 <;> simp }

def callPool : CTxMemPool :=
  .ofEntries (fun tx => tx.nLockTime.toNat)
    { tx := {}, nFee := 0, nTxWeight := 0, sigOpCost := 0, nCountWithAncestors := 1
      nSizeWithAncestors := 0, nModFeesWithAncestors := 0, nSigOpCostWithAncestors := 0 }
    [{ tx := { ConnectEnv.callingTx with nLockTime := 2 }
       nFee := 1000000, nTxWeight := 400, sigOpCost := 0, nCountWithAncestors := 1
       nSizeWithAncestors := 100, nModFeesWithAncestors := 1000000, nSigOpCostWithAncestors := 0 }]
    (fun id => id) (by decide) (by decide)

def leaving : MinerEnv ArtaxState := ticking.onNode leavingNode ConnectEnv.twoCoins [] .eip158 0

def decodedCall : ArtaxTransaction :=
  { isCreation := false, value := 1#256, gasPrice := 40#256, gas := 10000#256, receiveAddress := 7,
    data := [1], sender := 0 }

theorem extraction_callingTx (sender : Address) (hash : H256) :
    (ArtaxTxConverter.extractionArtaxTransactions
      ⟨{ ConnectEnv.callingTx with nLockTime := 2 }, sender, hash, .sample, 0⟩).map Prod.fst =
    some [{ decodedCall with sender, hashWith := hash }] := rfl

theorem admitted_callPool : leaving.Admitted (callPool.entry 2) := by
  refine ⟨by decide, fun world vtx txs extracted => ?_⟩
  cases extracted.symm.trans (extraction_callingTx _ _)
  have passed : checkMempoolGas 10000 40 40000000 1000000 [decodedCall] 0#256 0#256 0#256 =
      .ok (400000#256, 40#256) := by decide +kernel
  refine ⟨10000, 40, 40000000, _, by decide, Eq.trans ?_ passed⟩
  simp only [checkMempoolGas]
  rfl

/-- The call of the pool is added to the new block. It uses half of its gas, the rest is refunded, and
the roots change. -/
theorem attemptToAddContractToBlock_effect_call : ∃ a' left,
    leaving.attemptToAddContractToBlock callPool 2 (leaving.newBlock [] []) .twoContracts =
        (true, a', left) ∧
      a'.bceResult.usedGas = 5000 ∧ a'.bceResult.refundSender = 200000 ∧
      leaving.roots .twoContracts = (2, 5) ∧ leaving.roots left = (2, 6) ∧
      a'.bceResult.usedGas ≤ leaving.softBlockGasLimit ∧
      0 ≤ a'.nFees - a'.bceResult.refundSender := by
  have lawful : leaving.Lawful := lawful_onNode (by decide) (fun _ tx _ => by
    change (if 5000#256 ≤ tx.gas then 5000#256 else 0#256) ≤ tx.gas
    split_ifs with enough
    · exact enough
    · exact BitVec.le_def.2 (Nat.zero_le _)) _ _
  have evaluated : (fun ended : Bool × BlockAssembler × ArtaxState =>
      (ended.1, ended.2.1.bceResult.usedGas, ended.2.1.bceResult.refundSender,
        leaving.roots ended.2.2)) (leaving.attemptToAddContractToBlock callPool 2
          (leaving.newBlock [] []) .twoContracts) = (true, 5000, 200000, 2, 6) := by decide +kernel
  generalize ran : leaving.attemptToAddContractToBlock callPool 2 (leaving.newBlock [] [])
    .twoContracts = ended at evaluated
  obtain ⟨added, a', left⟩ := ended
  simp only [Prod.mk.injEq] at evaluated
  obtain ⟨rfl, used, refunded, roots⟩ := evaluated
  obtain ⟨_, _, _, _, _, _, _, _, within, paid⟩ :=
    (attemptToAddContractToBlock_effect lawful ran).2 rfl admitted_callPool
  exact ⟨a', left, rfl, used, refunded, by decide +kernel, roots, within, paid⟩

end MinerEnv
end Artax
