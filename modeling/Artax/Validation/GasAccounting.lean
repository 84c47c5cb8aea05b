import Artax.Validation.Connected

/-!
# Gas accounting

Gas is bounded three times: each output by `parseEthTXParams`, their sum by the fee of the
transaction, and the fees of a block by the money range. So the 64-bit arithmetic of
`processingResults` is exact.
-/

namespace Artax

open Util ArtaxState CTransaction ByteCodeExec List BitVec

/-- The bounds that `parseEthTXParams` puts on the gas of a virtual machine transaction. -/
structure ArtaxTransaction.GasParsed (tx : ArtaxTransaction) : Prop where
  limit : tx.gas.toNat < 2 ^ 63
  price : tx.gasPrice.toNat < 2 ^ 63
  cost : tx.gas.toNat * tx.gasPrice.toNat < 2 ^ 63

namespace ArtaxTxConverter

theorem gasParsed_of_parseOperands {receiveAddress : Address} {stack rest : List Bytes}
    {etp : EthTransactionParams} (parsed : parseOperands receiveAddress stack = some (etp, rest)) :
    etp.gasLimit.toNat < 2 ^ 63 ∧ etp.gasPrice.toNat < 2 ^ 63 ∧
      etp.gasLimit.toNat * etp.gasPrice.toNat < 2 ^ 63 := by
  unfold parseOperands at parsed
  split at parsed
  · split at parsed
    · cases parsed
    · split at parsed
      · rename_i gasPrice gasLimit _ _
        split at parsed
        · cases parsed
        · rename_i small
          split at parsed
          · cases parsed
          · rename_i product
            split at parsed
            · cases parsed
            · split at parsed
              · cases parsed
              · cases parsed
                have price : gasPrice < 2 ^ 63 := by omega
                have limit : gasLimit < 2 ^ 63 := by omega
                have cost : gasLimit * gasPrice < 2 ^ 63 := by
                  by_cases free : gasPrice = 0
                  · simp [free]
                  · have quotient : gasLimit ≤ (2 ^ 63 - 1) / gasPrice := by
                      by_contra more
                      exact product ⟨free, Nat.lt_of_not_le more⟩
                    have bound := Nat.mul_le_of_le_div gasPrice gasLimit (2 ^ 63 - 1) quotient
                    omega
                have fits : (2 : Nat) ^ 63 ≤ 2 ^ 256 := by decide
                simp only [toNat_ofNat, Nat.mod_eq_of_lt (Nat.lt_of_lt_of_le price fits),
                  Nat.mod_eq_of_lt (Nat.lt_of_lt_of_le limit fits)]
                exact ⟨limit, price, cost⟩
      · cases parsed
  · cases parsed

theorem gasParsed_of_extract {c : ArtaxTxConverter} {outs : List (CTxOut × Nat)}
    {stack : List Bytes} {txs : List ArtaxTransaction} {etps : List EthTransactionParams}
    (extracted : c.extract outs stack = some (txs, etps)) : ∀ tx ∈ txs, tx.GasParsed := by
  induction outs generalizing stack txs etps with
  | nil =>
    cases extracted
    exact nofun
  | cons out rest ih =>
    obtain ⟨txout, i⟩ := out
    unfold extract at extracted
    split at extracted
    · split at extracted
      · cases extracted
      · rename_i opcode left _
        split at extracted
        · cases extracted
        · rename_i params below parsed
          split at extracted
          · cases extracted
          · rename_i later
            cases extracted
            have bounds : params.gasLimit.toNat < 2 ^ 63 ∧ params.gasPrice.toNat < 2 ^ 63 ∧
                params.gasLimit.toNat * params.gasPrice.toNat < 2 ^ 63 := by
              unfold parseEthTXParams at parsed
              split at parsed
              · split at parsed
                · cases parsed
                · exact gasParsed_of_parseOperands parsed
              · exact gasParsed_of_parseOperands parsed
            rw [forall_mem_cons]
            exact ⟨⟨bounds.1, bounds.2.1, bounds.2.2⟩, ih later⟩
    · exact ih extracted

end ArtaxTxConverter

/-! ## The checks before execution -/

def gasCost (txs : List ArtaxTransaction) : Nat :=
  (txs.map fun tx => tx.gas.toNat * tx.gasPrice.toNat).sum

def gasTotal (txs : List ArtaxTransaction) : Nat := (txs.map fun tx => tx.gas.toNat).sum

section

variable {blockGasLimit : UInt64} {nTxFee : Int} {tx : ArtaxTransaction} {sumGas gasAllTxs : U256}

/-- The sums of gas after one more transaction, which are exact and within the fee and the limit. -/
structure GasSums (blockGasLimit : UInt64) (nTxFee : Int) (tx : ArtaxTransaction)
    (sumGas gasAllTxs : U256) : Prop where
  sum : (sumGas + tx.gas * tx.gasPrice).toNat = sumGas.toNat + tx.gas.toNat * tx.gasPrice.toNat
  total : (gasAllTxs + tx.gas).toNat = gasAllTxs.toNat + tx.gas.toNat
  paid : ((sumGas + tx.gas * tx.gasPrice).toNat : Int) ≤ nTxFee
  used : (gasAllTxs + tx.gas).toNat ≤ blockGasLimit.toNat

/-- The 256-bit sums do not wrap, because they are compared with 63-bit numbers after every step. -/
theorem gasSums_step (parsed : tx.GasParsed) (fee : 0 ≤ nTxFee) (range : nTxFee < 2 ^ 63)
    (cost : (sumGas.toNat : Int) ≤ nTxFee) (amount : gasAllTxs.toNat ≤ blockGasLimit.toNat)
    (covered : sumGas + tx.gas * tx.gasPrice ≤ BitVec.ofInt 256 nTxFee)
    (within : gasAllTxs + tx.gas ≤ BitVec.ofNat 256 blockGasLimit.toNat) :
    GasSums blockGasLimit nTxFee tx sumGas gasAllTxs := by
  obtain ⟨limit, price, product⟩ := parsed
  have bought : (tx.gas * tx.gasPrice).toNat = tx.gas.toNat * tx.gasPrice.toNat := by
    rw [toNat_mul]
    exact Nat.mod_eq_of_lt (Nat.lt_trans product (by decide))
  have small := blockGasLimit.toNat_lt
  refine ⟨?_, ?_, ?_, ?_⟩
  · rw [toNat_add, bought]
    exact Nat.mod_eq_of_lt (by omega)
  · rw [toNat_add]
    exact Nat.mod_eq_of_lt (by omega)
  · have bound := le_def.1 covered
    rw [toNat_ofInt] at bound
    have exact' : nTxFee % ((2 ^ 256 : Nat) : Int) = nTxFee :=
      Int.emod_eq_of_lt fee (by push_cast; omega)
    rw [exact'] at bound
    omega
  · have bound := le_def.1 within
    rw [toNat_ofNat, Nat.mod_eq_of_lt (by omega)] at bound
    exact bound

theorem gasSums_cons {rest : List ArtaxTransaction}
    (step : GasSums blockGasLimit nTxFee tx sumGas gasAllTxs)
    (later : (((sumGas + tx.gas * tx.gasPrice).toNat + gasCost rest : Nat) : Int) ≤ nTxFee ∧
      (gasAllTxs + tx.gas).toNat + gasTotal rest ≤ blockGasLimit.toNat) :
    ((sumGas.toNat + gasCost (tx :: rest) : Nat) : Int) ≤ nTxFee ∧
      gasAllTxs.toNat + gasTotal (tx :: rest) ≤ blockGasLimit.toNat := by
  obtain ⟨first, second⟩ := later
  rw [step.sum] at first
  rw [step.total] at second
  simp only [gasCost, gasTotal, map_cons, sum_cons, ← Nat.add_assoc] at first second ⊢
  exact ⟨first, second⟩

end

namespace ConnectEnv

/-- The loop over the virtual machine transactions bounds the cost of their gas by the fee and its
amount by the block gas limit. -/
theorem gas_of_checkVersionsAndGas {minGasPrice blockGasLimit : UInt64} {nTxFee : Int}
    {txs : List ArtaxTransaction} {sumGas gasAllTxs : U256} {nonZero result : Bool}
    (parsed : ∀ tx ∈ txs, tx.GasParsed) (fee : 0 ≤ nTxFee) (range : nTxFee < 2 ^ 63)
    (cost : (sumGas.toNat : Int) ≤ nTxFee) (amount : gasAllTxs.toNat ≤ blockGasLimit.toNat)
    (passed : checkVersionsAndGas minGasPrice blockGasLimit nTxFee txs sumGas gasAllTxs nonZero =
      .ok result) :
    ((sumGas.toNat + gasCost txs : Nat) : Int) ≤ nTxFee ∧
      gasAllTxs.toNat + gasTotal txs ≤ blockGasLimit.toNat := by
  induction txs generalizing sumGas gasAllTxs nonZero with
  | nil => exact ⟨by simpa [gasCost] using cost, by simpa [gasTotal] using amount⟩
  | cons tx rest ih =>
    simp only [checkVersionsAndGas, bind_eq_ok, require_eq_ok, decide_eq_true_eq] at passed
    obtain ⟨_, _, _, covered, _, _, _, _, _, _, _, _, _, _, _, _, _, _, _, within, _, _, later⟩ :=
      passed
    have step := gasSums_step (parsed tx mem_cons_self) fee range cost amount covered within
    exact gasSums_cons step
      (ih (fun t member => parsed t (mem_cons_of_mem _ member)) step.paid step.used later)

end ConnectEnv

/-! ## Processing the results -/

namespace ByteCodeExec

/-- An execution reports at most the gas it was given. -/
def WithinLimit (tx : ArtaxTransaction) (res : ResultExecute) : Prop :=
  res.execRes.gasUsed ≤ tx.gas

/-- The refund of an execution in exact arithmetic: the price of the gas that was not used, if the
execution has not failed. -/
def exactRefund (tx : ArtaxTransaction) (res : ResultExecute) : Nat :=
  if res.execRes.excepted = .none
  then (tx.gas.toNat - res.execRes.gasUsed.toNat) * tx.gasPrice.toNat else 0

def exactRefunds (pairs : List (ArtaxTransaction × ResultExecute)) : Nat :=
  (pairs.map fun pair => exactRefund pair.1 pair.2).sum

def exactGasUsed (pairs : List (ArtaxTransaction × ResultExecute)) : Nat :=
  (pairs.map fun pair => pair.2.execRes.gasUsed.toNat).sum

variable (ctx : ExecutionContext)

variable {tx : ArtaxTransaction} {res : ResultExecute} {out : ByteCodeExecResult}
  {txs : List ArtaxTransaction} {results : List ResultExecute}

theorem gasRefund_exact (parsed : tx.GasParsed) (within : WithinLimit tx res)
    (success : res.execRes.excepted = .none) :
    gasRefund tx res = some (exactRefund tx res : Int) := by
  obtain ⟨limit, price, cost⟩ := parsed
  have used : res.execRes.gasUsed.toNat ≤ tx.gas.toNat := le_def.1 within
  have narrow {word : U256} (small : word.toNat < 2 ^ 63) :
      (word.setWidth 64).toNat = word.toNat := by
    rw [toNat_setWidth]
    exact Nat.mod_eq_of_lt (by omega)
  have product : (tx.gas.toNat - res.execRes.gasUsed.toNat) * tx.gasPrice.toNat < 2 ^ 63 :=
    Nat.lt_of_le_of_lt (Nat.mul_le_mul_right _ (Nat.sub_le _ _)) cost
  have left : (tx.gas.setWidth 64 - res.execRes.gasUsed.setWidth 64).toNat =
      tx.gas.toNat - res.execRes.gasUsed.toNat := by
    rw [toNat_sub_of_le (by rw [le_def, narrow limit, narrow (by omega)]; exact used),
      narrow limit, narrow (by omega)]
  have amount : ((tx.gas.setWidth 64 - res.execRes.gasUsed.setWidth 64) *
      tx.gasPrice.setWidth 64).toNat = exactRefund tx res := by
    rw [toNat_mul, left, narrow price, exactRefund, if_pos success]
    exact Nat.mod_eq_of_lt (by omega)
  have signed : ((tx.gas.setWidth 64 - res.execRes.gasUsed.setWidth 64) *
      tx.gasPrice.setWidth 64).toInt = (exactRefund tx res : Int) := by
    rw [toInt_eq_toNat_of_lt (by rw [amount, exactRefund, if_pos success]; omega), amount]
  unfold gasRefund
  rw [if_neg (by omega)]
  simp only [signed]
  rw [if_neg (Int.not_lt.2 (Int.natCast_nonneg _))]

/-- What `processingResults` has accumulated is exact. -/
structure ExactTotals (pairs : List (ArtaxTransaction × ResultExecute)) (out : ByteCodeExecResult) :
    Prop where
  usedGas : out.usedGas.toNat = exactGasUsed pairs
  refundSender : out.refundSender = exactRefunds pairs
  refundOutputs : (out.refundOutputs.map CTxOut.nValue).sum = (exactRefunds pairs : Int)

theorem exactTotals_nil : ExactTotals [] {} :=
  ⟨rfl, rfl, rfl⟩

theorem exactRefunds_append (pairs more : List (ArtaxTransaction × ResultExecute)) :
    exactRefunds (pairs ++ more) = exactRefunds pairs + exactRefunds more := by
  simp [exactRefunds]

theorem exactGasUsed_append (pairs more : List (ArtaxTransaction × ResultExecute)) :
    exactGasUsed (pairs ++ more) = exactGasUsed pairs + exactGasUsed more := by
  simp [exactGasUsed]

theorem exactTotals_processResult {pairs : List (ArtaxTransaction × ResultExecute)}
    (parsed : tx.GasParsed) (within : WithinLimit tx res) (exact' : ExactTotals pairs out)
    (room : exactGasUsed pairs + res.execRes.gasUsed.toNat < 2 ^ 64) :
    ∃ out', processResult ctx out tx res = some out' ∧ ExactTotals (pairs ++ [(tx, res)]) out' := by
  have gas : (out.usedGas + UInt64.ofBitVec (res.execRes.gasUsed.setWidth 64)).toNat =
      exactGasUsed (pairs ++ [(tx, res)]) := by
    have narrow : (UInt64.ofBitVec (res.execRes.gasUsed.setWidth 64)).toNat =
        res.execRes.gasUsed.toNat := by
      change (res.execRes.gasUsed.setWidth 64).toNat = _
      rw [toNat_setWidth]
      exact Nat.mod_eq_of_lt (by omega)
    rw [UInt64.toNat_add, narrow, exact'.usedGas, exactGasUsed_append]
    exact Nat.mod_eq_of_lt room
  have refunds : exactRefunds (pairs ++ [(tx, res)]) = exactRefunds pairs + exactRefund tx res := by
    rw [exactRefunds_append]
    simp [exactRefunds]
  unfold processResult
  by_cases success : res.execRes.excepted = .none
  · simp only [success, ne_eq, not_true_eq_false, if_false, gasRefund_exact parsed within success]
    refine ⟨_, rfl, ?_⟩
    by_cases positive : (0 : Int) < exactRefund tx res
    · rw [if_pos positive]
      have totals : ExactTotals (pairs ++ [(tx, res)]) { out with
          usedGas := out.usedGas + UInt64.ofBitVec (res.execRes.gasUsed.setWidth 64)
          refundOutputs := out.refundOutputs ++
            [⟨exactRefund tx res, CScript.payToPubkeyHash tx.sender⟩]
          refundSender := out.refundSender + exactRefund tx res } := by
        refine ⟨gas, ?_, ?_⟩
        · rw [refunds, exact'.refundSender]
          push_cast
          rfl
        · rw [refunds, map_append, sum_append, exact'.refundOutputs]
          push_cast
          simp
      split
      · exact ⟨totals.usedGas, totals.refundSender, totals.refundOutputs⟩
      · exact totals
    · have none : exactRefund tx res = 0 := by omega
      rw [none, Nat.add_zero] at refunds
      rw [if_neg positive]
      split <;> exact ⟨gas, by rw [refunds]; exact exact'.refundSender,
        by rw [refunds]; exact exact'.refundOutputs⟩
  · simp only [success, ne_eq, not_false_eq_true, if_true]
    rw [exactRefund, if_neg success, Nat.add_zero] at refunds
    refine ⟨_, rfl, ?_⟩
    split <;> exact ⟨gas, by rw [refunds]; exact exact'.refundSender,
      by rw [refunds]; exact exact'.refundOutputs⟩

theorem exactTotals_processingResults (parsed : ∀ tx ∈ txs, tx.GasParsed)
    (within : List.Forall₂ WithinLimit txs results)
    {before : List (ArtaxTransaction × ResultExecute)} (exact' : ExactTotals before out)
    (room : exactGasUsed before + gasTotal txs < 2 ^ 64) :
    ∃ out', processingResults ctx (txs.zip results) out = some out' ∧
      ExactTotals (before ++ txs.zip results) out' := by
  induction within generalizing before out with
  | nil => exact ⟨out, rfl, by simpa using exact'⟩
  | @cons tx res rest results head _ ih =>
    have used : res.execRes.gasUsed.toNat ≤ tx.gas.toNat := le_def.1 head
    simp only [gasTotal, map_cons, sum_cons] at room
    obtain ⟨next, step, totals⟩ := exactTotals_processResult ctx
      (parsed tx mem_cons_self) head exact' (by omega)
    obtain ⟨last, processed, final⟩ := ih (fun t member => parsed t (mem_cons_of_mem _ member))
      totals (by
        rw [exactGasUsed_append]
        simp only [exactGasUsed, gasTotal, map_cons, map_nil, sum_singleton] at room ⊢
        omega)
    refine ⟨last, ?_, by simpa using final⟩
    rw [zip_cons_cons, processingResults, step]
    exact processed

theorem exactRefunds_le_gasCost (within : List.Forall₂ WithinLimit txs results) :
    exactRefunds (txs.zip results) ≤ gasCost txs := by
  induction within with
  | nil => exact Nat.le_refl _
  | @cons tx res rest results _ _ ih =>
    have head : exactRefund tx res ≤ tx.gas.toNat * tx.gasPrice.toNat := by
      unfold exactRefund
      split
      · exact Nat.mul_le_mul_right _ (Nat.sub_le _ _)
      · exact Nat.zero_le _
    simp only [exactRefunds, gasCost, zip_cons_cons, map_cons, sum_cons] at ih ⊢
    omega

end ByteCodeExec

/-! ## Transactions of a proof-of-stake block -/

namespace ConnectEnv

variable {env : ConnectEnv} {r : Round} {block : CBlock} {tx : CTransaction} {view : CoinsView}
  {txfee : CAmount}

theorem plain_of_executed (checked : env.BlockChecked block) (stake : block.isProofOfStake)
    (member : tx ∈ block.vtx) (executes : tx.isExecuted) :
    tx.isCoinBase = false ∧ tx.isCoinStake = false := by
  have contract := (Bool.and_eq_true_iff.1 executes).1
  have passed := checked.coinstake stake
  simp only [CheckEnv.checkCoinstake, bind_eq_ok, require_eq_ok] at passed
  obtain ⟨_, _, _, second, _, _, _, others, noContract⟩ := passed
  obtain ⟨rest, split, _, _, free, plain⟩ := checked.vtx_eq
  rw [split] at member
  rcases mem_cons.1 member with rfl | later
  · rw [free] at contract
    cases contract
  · refine ⟨plain tx later, ?_⟩
    cases rest with
    | nil => cases later
    | cons coinstake rest =>
      rcases mem_cons.1 later with rfl | last
      · have same : block.coinstake = tx := by simp [CBlock.coinstake, split]
        rw [same, contract, Bool.or_true] at noContract
        cases noContract
      · have none : ∀ tx ∈ rest, tx.isCoinStake = false := by simpa [split] using others
        exact none tx last

variable {txs : List ArtaxTransaction}

/-- The executions of a contract transaction report at most the gas they were given. -/
def ExecutesWithin (env : ConnectEnv) (r : Round) (s : Connecting) (tx : CTransaction) : Prop :=
  match env.checkContract r.minGasPrice r.blockGasLimit s.view r.block tx with
  | .error _ => True
  | .ok txs =>
    match performByteCode r.ctx r.info .committed txs s.state [] with
    | some (true, _, results) => List.Forall₂ ByteCodeExec.WithinLimit txs results
    | _ => True

/-- Every execution of a block reports at most the gas it was given. -/
def RunWithin (env : ConnectEnv) (r : Round) : List CTransaction → Connecting → Prop
  | [], _ => True
  | tx :: rest, s =>
    ExecutesWithin env r s tx ∧
      match env.connectTx r s tx with
      | .error _ => True
      | .ok s' => RunWithin env r rest s'

instance (s : Connecting) (tx : CTransaction) : Decidable (ExecutesWithin env r s tx) :=
  match decoded : env.checkContract r.minGasPrice r.blockGasLimit s.view r.block tx with
  | .error _ => .isTrue (by simp [ExecutesWithin, decoded])
  | .ok txs =>
    match performed : performByteCode r.ctx r.info .committed txs s.state [] with
    | none => .isTrue (by simp [ExecutesWithin, decoded, performed])
    | some (false, _, _) => .isTrue (by simp [ExecutesWithin, decoded, performed])
    | some (true, _, results) =>
      decidable_of_iff (List.Forall₂ (fun tx res => res.execRes.gasUsed ≤ tx.gas) txs results) (by
        simp only [ExecutesWithin, decoded, performed]
        rfl)

instance decidableRunWithin : ∀ txs s, Decidable (RunWithin env r txs s)
  | [], _ => .isTrue trivial
  | tx :: rest, s =>
    match found : env.connectTx r s tx with
    | .error _ => decidable_of_iff (ExecutesWithin env r s tx) (by simp [RunWithin, found])
    | .ok s' =>
      have := decidableRunWithin rest s'
      decidable_of_iff (ExecutesWithin env r s tx ∧ RunWithin env r rest s') (by
        simp [RunWithin, found])

section

variable (coinbase : tx.isCoinBase = false) (coinstake : tx.isCoinStake = false)
  (inputs : tx.checkTxInputs view r.nHeight = .ok txfee)
  (decoded : env.checkContract r.minGasPrice r.blockGasLimit view block tx = .ok txs)
include coinbase coinstake inputs decoded

theorem gas_of_checkContract :
    (∀ qtx ∈ txs, qtx.GasParsed) ∧ (gasCost txs : Int) ≤ txfee ∧
      gasTotal txs ≤ r.blockGasLimit.toNat := by
  simp only [checkContract, bind_eq_ok] at decoded
  obtain ⟨_, _, rest⟩ := decoded
  split at rest
  · cases rest
  · rename_i xaxTransactions xaxETP extracted
    simp only [bind_eq_ok, valueOutOrThrow_eq_ok] at rest
    obtain ⟨_, _, value, returned, _, passed, _, _, same⟩ := rest
    cases same
    have parsed := ArtaxTxConverter.gasParsed_of_extract extracted
    have fee := fee_of_checkTxInputs inputs
    have range := (moneyRange_iff _).1 (moneyRange_of_checkTxInputs inputs)
    rw [coinstake, if_neg Bool.false_ne_true] at fee
    have same : view.getValueIn tx - value = txfee := by
      rw [CoinsView.getValueIn, coinbase, if_neg Bool.false_ne_true,
        valueOut_of_getValueOut returned, fee]
    rw [same] at passed
    have small : txfee < 2 ^ 63 := Int.lt_of_le_of_lt range.2 (by decide)
    obtain ⟨cost, total⟩ := gas_of_checkVersionsAndGas parsed range.1 small (by simpa using range.1)
      (Nat.zero_le _) passed
    refine ⟨parsed, ?_, ?_⟩
    · simpa using cost
    · simpa using total

theorem refunds_le_fee {state after : ArtaxState} {bcer : ByteCodeExecResult}
    (within : ∀ after results, performByteCode r.ctx r.info .committed txs state [] = some (true, after, results) → List.Forall₂ ByteCodeExec.WithinLimit txs results)
    (ran : executeContract r.ctx r.info txs state = .ok (after, bcer)) :
    (bcer.refundOutputs.map CTxOut.nValue).sum ≤ txfee := by
  obtain ⟨parsed, cost, total⟩ := gas_of_checkContract coinbase coinstake inputs decoded
  obtain ⟨results, performed, processed⟩ := executeContract_eq_ok ran
  have limits := within _ _ performed
  have room : exactGasUsed [] + gasTotal txs < 2 ^ 64 := by
    have bound := r.blockGasLimit.toNat_lt
    simp only [exactGasUsed, map_nil, sum_nil]
    omega
  obtain ⟨out, same, totals⟩ := exactTotals_processingResults r.ctx parsed
    limits exactTotals_nil room
  rw [processed] at same
  cases same
  rw [totals.refundOutputs, nil_append]
  exact Int.le_trans (Int.ofNat_le.2 (exactRefunds_le_gasCost limits)) cost

end

theorem refunds_le_fees_of_round {s s' : Connecting} (connected : TxConnected env r s tx s')
    (plain : tx.isExecuted → tx.isCoinBase = false ∧ tx.isCoinStake = false)
    (within : ExecutesWithin env r s tx) (before : s.gasRefunds ≤ s.nFees) : s'.gasRefunds ≤ s'.nFees := by
  rw [connected.fees]
  cases executes : tx.isExecuted with
  | true =>
    obtain ⟨coinbase, coinstake⟩ := plain executes
    obtain ⟨txs, bcer, executed⟩ := connected.executed executes
    obtain ⟨txfee, inputs⟩ := connected.inputs coinbase
    have bound := refunds_le_fee coinbase coinstake inputs executed.decoded
      (fun after results performed => by
        simpa only [ExecutesWithin, executed.decoded, performed] using within) executed.ran
    have fee := fee_of_checkTxInputs inputs
    rw [coinstake, if_neg Bool.false_ne_true] at fee
    rw [executed.refunds, CoinsView.countedFee, coinbase, coinstake, Bool.or_self,
      if_neg Bool.false_ne_true, ← fee]
    exact Int.add_le_add before bound
  | false =>
    rw [(connected.unexecuted executes).refunds]
    have nonneg : 0 ≤ s.view.countedFee tx := by
      unfold CoinsView.countedFee
      cases coinbase : tx.isCoinBase with
      | true => simp
      | false =>
        obtain ⟨txfee, inputs⟩ := connected.inputs coinbase
        have range := (moneyRange_iff _).1 (moneyRange_of_checkTxInputs inputs)
        rw [Bool.false_or, ← fee_of_checkTxInputs inputs]
        exact range.1
    linarith

theorem refunds_le_fees_of_loop {txs : List CTransaction} {s s' : Connecting}
    (plain : ∀ tx ∈ txs, tx.isExecuted → tx.isCoinBase = false ∧ tx.isCoinStake = false)
    (within : RunWithin env r txs s) (before : s.gasRefunds ≤ s.nFees)
    (passed : txs.foldlM (env.connectTx r) s = .ok s') : s'.gasRefunds ≤ s'.nFees := by
  induction txs generalizing s with
  | nil =>
    cases passed
    exact before
  | cons tx rest ih =>
    rw [foldlM_cons, bind_eq_ok] at passed
    obtain ⟨middle, now, later⟩ := passed
    rw [RunWithin, now] at within
    exact ih (fun tx member => plain tx (mem_cons_of_mem _ member)) within.2
      (refunds_le_fees_of_round (txConnected_of_connectTx now) (plain tx mem_cons_self)
        within.1 before) later

/-- For a contract transaction of an accepted proof-of-stake block that passes the checks before
execution, `processingResults` returns on every beginning of the results, its 64-bit totals are
exact, and the refunds are the price of the gas left, within the fee. After all transactions they are
within the fees. -/
theorem gas_accounting_exact {limits : BlockLimits} (honest : env.HonestMark block)
    (accepted : env.checkBlock limits true true true block = .ok ())
    (stake : block.isProofOfStake = true) :
    (∀ tx ∈ block.vtx, tx.isExecuted = true → ∀ view txfee txs results,
      tx.checkTxInputs view r.nHeight = .ok txfee →
      env.checkContract r.minGasPrice r.blockGasLimit view block tx = .ok txs →
      List.Forall₂ ByteCodeExec.WithinLimit txs results →
        (∀ pair ∈ txs.zip results, pair.2.execRes.excepted = .none →
          gasRefund pair.1 pair.2 =
            some (exactRefund pair.1 pair.2 : Int)) ∧
        (∀ k, ∃ bcer, processingResults r.ctx ((txs.zip results).take k) {} = some bcer ∧
          ByteCodeExec.ExactTotals ((txs.zip results).take k) bcer) ∧
        exactRefunds (txs.zip results) < 2 ^ 63 ∧
        (exactRefunds (txs.zip results) : Int) ≤ txfee) ∧
    ∀ view state s, RunWithin env r block.vtx { view, state } →
      block.vtx.foldlM (env.connectTx r) { view, state } = .ok s → s.gasRefunds ≤ s.nFees := by
  have checked := env.blockChecked_of_checkBlock honest accepted
  refine ⟨fun tx member executes view txfee txs results inputs decoded within => ?_,
    fun view state s within passed => ?_⟩
  · obtain ⟨coinbase, coinstake⟩ := plain_of_executed checked stake member executes
    obtain ⟨parsed, cost, total⟩ := gas_of_checkContract coinbase coinstake inputs decoded
    have refunds := exactRefunds_le_gasCost within
    have range := (moneyRange_iff _).1 (moneyRange_of_checkTxInputs inputs)
    have fee : (exactRefunds (txs.zip results) : Int) ≤ txfee :=
      Int.le_trans (Int.ofNat_le.2 refunds) cost
    refine ⟨fun pair listed success => ?_, fun k => ?_, ?_, fee⟩
    · have both := forall₂_iff_zip.1 within
      obtain ⟨qtx, res⟩ := pair
      exact gasRefund_exact (parsed qtx (of_mem_zip listed).1) (both.2 listed) success
    · have room : exactGasUsed [] + gasTotal (txs.take k) < 2 ^ 64 := by
        have bound := r.blockGasLimit.toNat_lt
        have part : gasTotal (txs.take k) ≤ gasTotal txs := by
          unfold gasTotal
          conv_rhs => rw [← take_append_drop k txs, map_append, sum_append]
          exact Nat.le_add_right _ _
        simp only [exactGasUsed, map_nil, sum_nil]
        omega
      obtain ⟨out, processed, totals⟩ := exactTotals_processingResults r.ctx
        (fun qtx listed => parsed qtx (mem_of_mem_take listed)) (forall₂_take k within)
        exactTotals_nil room
      rw [zip_eq_zipWith, take_zipWith, ← zip_eq_zipWith]
      exact ⟨out, processed, by simpa using totals⟩
    · have bound : (exactRefunds (txs.zip results) : Int) < 2 ^ 63 :=
        Int.lt_of_le_of_lt (Int.le_trans fee range.2) (by decide)
      exact_mod_cast bound
  · refine refunds_le_fees_of_loop (fun tx member => plain_of_executed checked stake member) within
      (Int.le_refl 0) passed

def stakingTx : CTransaction where
  vin := [⟨⟨9, 0⟩, [], 0⟩]
  vout := [⟨0, []⟩, ⟨coin, CScript.pushData (2 :: List.replicate 32 1) ++ [Op.checkSig]⟩]

def stakedBlock : CBlock :=
  { sample.blockOf [{ sampleCoinbase with vout := [⟨0, []⟩] }, stakingTx,
      { callingTx with vin := [⟨⟨8, 0⟩, [], 0⟩] }] with
    prevoutStake := ⟨9, 0⟩
    vchBlockSig := [1] }

def stakedCoins : CoinsView := fun outpoint =>
  if outpoint = ⟨8, 0⟩ ∨ outpoint = ⟨9, 0⟩ then
    some ⟨⟨coin, CScript.payToPubkeyHash 1⟩, false, false, 1⟩
  else none

/-- In the block with a call the refunds stay within the fees. -/
theorem stakedBlock_refunds_le_fees :
    ∃ r s, sample.round [] 1000 twoContracts stakedBlock = some r ∧
      stakedBlock.vtx.foldlM (sample.connectTx r)
        { view := stakedCoins, state := twoContracts } = .ok s ∧
      s.gasRefunds ≤ s.nFees := by
  have checks : (sample.round [] 1000 twoContracts stakedBlock).map (fun r =>
      (sample.checkBlock r.limits true true true stakedBlock).toBool &&
      decide (RunWithin sample r stakedBlock.vtx
        { view := stakedCoins, state := twoContracts }) &&
      (stakedBlock.vtx.foldlM (sample.connectTx r)
        { view := stakedCoins, state := twoContracts }).toBool) = some true := by
    decide +kernel
  obtain ⟨r, round, checks⟩ := Option.map_eq_some_iff.1 checks
  simp only [Bool.and_eq_true, decide_eq_true_eq] at checks
  obtain ⟨⟨accepted, within⟩, completes⟩ := checks
  obtain ⟨_, accepted⟩ := exists_ok accepted
  obtain ⟨s, completes⟩ := exists_ok completes
  exact ⟨r, s, round, completes, (gas_accounting_exact (fun marked => by cases marked) accepted
    (by decide)).2 _ _ s within completes⟩

end ConnectEnv
end Artax
