import Artax.Aal.Parked

/-!
# Coins sent to contracts are accounted for once

Each contract output that carries value is spent by exactly one of the transactions a block has to
contain: the condensing transaction of its execution if that succeeds, a refund otherwise. In between
the state stays idle and mirrored.
-/

namespace Artax

open ArtaxTransaction ByteCodeExec CTransaction ArtaxState List Option
open Util.Ledger (total)
open CondensingTX

def ArtaxTransaction.outpoint (tx : ArtaxTransaction) : COutPoint := ⟨tx.hashWith, tx.nVout⟩

def CTransaction.spendsOutpoint (o : COutPoint) (t : CTransaction) : Bool :=
  t.vin.any fun txin => decide (txin.prevout = o)

namespace ByteCodeExec

variable {ctx : ExecutionContext} {env : EnvInfo}

def contribution (ctx : ExecutionContext) (tx : ArtaxTransaction) (res : ResultExecute) :
    List CTransaction :=
  (if res.execRes.excepted ≠ .none ∧ 0#256 < tx.value
    then [refundTx tx (ctx.amounts.direct tx.value)] else []) ++
  (if res.tx.getHash ctx.computeHash = 0 then [] else [res.tx])

variable {out out' : ByteCodeExecResult} {tx : ArtaxTransaction} {res : ResultExecute}
  {outputs : List COutPoint}

theorem valueTransfers_processResult (processed : processResult ctx out tx res = some out') :
    out'.valueTransfers = out.valueTransfers ++ contribution ctx tx res := by
  have null : getHash ctx.computeHash {} = 0 := rfl
  unfold processResult at processed
  simp only [null] at processed
  unfold contribution
  by_cases excepted : res.execRes.excepted = .none
  · simp only [excepted, ne_eq, not_true_eq_false, if_false, false_and, nil_append] at processed ⊢
    cases refund : gasRefund tx res with
    | none =>
      rw [refund] at processed
      cases processed
    | some amount =>
      simp only [refund, some.injEq] at processed
      rw [← processed]
      by_cases null : res.tx.getHash ctx.computeHash = 0 <;> by_cases positive : 0 < amount <;>
        simp [null, positive]
  · simp only [excepted, ne_eq, not_false_eq_true, if_true, true_and, some.injEq] at processed ⊢
    rw [← processed]
    by_cases null : res.tx.getHash ctx.computeHash = 0 <;> by_cases positive : 0#256 < tx.value <;>
      simp [null, positive]

theorem valueTransfers_processingResults {pairs : List (ArtaxTransaction × ResultExecute)}
    (processed : processingResults ctx pairs out = some out') :
    out'.valueTransfers =
      out.valueTransfers ++ pairs.flatMap fun pair => contribution ctx pair.1 pair.2 := by
  induction pairs generalizing out with
  | nil =>
    cases processed
    simp
  | cons pair rest ih =>
    obtain ⟨tx, res⟩ := pair
    simp only [processingResults] at processed
    split at processed
    · cases processed
    · rename_i next step
      rw [ih processed, valueTransfers_processResult step, flatMap_cons, append_assoc]

/-! ## One result -/

/-- A result spends, of the outputs in a list, the one its transaction was decoded from if that
carries value, once, and no other. -/
def Accounted (ctx : ExecutionContext) (outputs : List COutPoint) (tx : ArtaxTransaction)
    (res : ResultExecute) : Prop :=
  ∀ o ∈ outputs, (contribution ctx tx res).countP (·.spendsOutpoint o) =
    if tx.outpoint = o ∧ 0#256 < tx.value then 1 else 0

theorem spendsOutpoint_refundTx (tx : ArtaxTransaction) (amount : CAmount) (o : COutPoint) :
    (refundTx tx amount).spendsOutpoint o = decide (tx.outpoint = o) :=
  Bool.or_false _

theorem accounted_of_excepted (excepted : res.execRes.excepted ≠ .none) (none : res.tx = {}) :
    Accounted ctx outputs tx res := by
  intro o _
  have null : getHash ctx.computeHash {} = 0 := rfl
  unfold contribution
  rw [none, if_pos null, append_nil]
  by_cases positive : 0#256 < tx.value
  · rw [if_pos ⟨excepted, positive⟩, countP_singleton, spendsOutpoint_refundTx]
    simp [positive]
  · simp [positive]

theorem accounted_of_limit (hashes : ∀ t, ctx.computeHash t ≠ 0) (e : TransactionException)
    (logs : List LogEntry) :
    Accounted ctx outputs tx (thrownResult ctx tx e true logs) := by
  intro o _
  unfold contribution thrownResult
  by_cases positive : 0#256 < tx.value
  · have hash : (refundTx tx (ctx.amounts.viaUint64 tx.value)).getHash
        ctx.computeHash ≠ 0 := hashes _
    simp only [if_true, positive, ne_eq, not_true_eq_false, if_false, nil_append,
      hash, countP_singleton, spendsOutpoint_refundTx, and_true, decide_eq_true_eq]
  · have null : getHash ctx.computeHash {} = 0 := rfl
    simp [positive, null]

/-! ## A successful execution -/

end ByteCodeExec

namespace ArtaxState

variable {ctx : ExecutionContext} {env : EnvInfo} {tx : ArtaxTransaction} {s : ArtaxState}

def Unnamed (outputs : List COutPoint) (s : ArtaxState) : Prop :=
  ∀ a v, s.stateUTXO a = some v → ⟨v.hash, v.nVout⟩ ∉ outputs

variable {outputs : List COutPoint} {logs : List LogEntry} {state : ArtaxState}
  {res : ExecutionResult} {made : CTransaction}

theorem Unnamed.reset (unnamed : s.Unnamed outputs) :
    s.reset.Unnamed outputs := unnamed

/-- What an execution of a sequence is assumed to be: no contract is about to be deleted, a
successful one keeps the books in range with a new condensing transaction, and a failed one meets no
address collision. -/
structure Orderly (ctx : ExecutionContext) (env : EnvInfo) (outputs : List COutPoint)
    (tx : ArtaxTransaction) (s : ArtaxState) : Prop where
  stored : ∀ a entry, s.trie a = some entry → entry.code ≠ [] →
    a ∉ s.deleteAddresses ∧ a ≠ tx.sender ∧ a ≠ env.author
  succeeds : ∀ state res logs made, tryBlock ctx env tx .committed (prepare ctx env tx s) =
      some (.finished state res logs made) → res.excepted = .none →
    KeepsBooks ctx env tx s ∧ ∀ o ∈ outputs, made.getHash ctx.computeHash ≠ o.hash
  values : ∀ trace f entered a v, outermost ctx env tx s = some (trace, f, entered) →
    s.stateUTXO a = some v →
    v.value.toNat + (total s.ledger + tx.value.toNat) * (trace.moves + 2) < 2 ^ 256
  excepts : ∀ state res logs made, tryBlock ctx env tx .committed (prepare ctx env tx s) =
      some (.finished state res logs made) → res.excepted ≠ .none → CollisionFree ctx env tx s

namespace Succeeded

variable {paid : ArtaxState} {entered : Executive.Entered} {f : Frame} {ran : Executive.Ran}

variable {outputs : List COutPoint}

section

variable (succeeded : Succeeded ctx env tx s paid entered f ran) (idle : s.Idle)
  (performed : Performed ctx env tx (prepare ctx env tx s) entered f ran)
include succeeded idle performed

theorem selected {a : Address} {v : Vin}
    (found : (selectionVin (condensed ctx env tx ran)).find? a = some v) :
    (a = tx.sender ∧ 0#256 < tx.value ∧ v = ownVin (condensed ctx env tx ran)) ∨
      ∃ w, s.stateUTXO a = some w ∧ v.hash = w.hash ∧ v.nVout = w.nVout ∧ v.value = w.value := by
  by_cases pays : a = tx.sender ∧ 0#256 < tx.value
  · obtain ⟨rfl, positive⟩ := pays
    rw [succeeded.selected_sender idle performed positive, some.injEq] at found
    exact .inl ⟨rfl, positive, found.symm⟩
  · refine .inr ?_
    have party := selectionVin_isSome _ (isSome_iff_exists.2 ⟨v, found⟩)
    rw [selectionVin_find? _ pays party, succeeded.vin_condensed idle] at found
    split at found
    · obtain ⟨w, held, rfl⟩ := map_eq_some_iff.1 found
      exact ⟨w, held, rfl, rfl, rfl⟩
    · exact ⟨v, found, rfl, rfl, rfl⟩

theorem spends_iff (unnamed : s.Unnamed outputs) {o : COutPoint} (member : o ∈ outputs)
    (spent : ((spentVins (condensed ctx env tx ran)).map spendInput).any (fun txin => decide (txin.prevout = o))) :
    tx.outpoint = o ∧ 0#256 < tx.value := by
  obtain ⟨txin, listed, same⟩ := any_eq_true.1 spent
  obtain ⟨⟨a, v⟩, entry, rfl⟩ := mem_map.1 listed
  have named : ⟨v.hash, v.nVout⟩ = o := of_decide_eq_true same
  rcases succeeded.selected idle performed ((mem_spentVins_iff _ a v).1 entry).1 with
    ⟨_, positive, rfl⟩ | ⟨w, held, hash, index, _⟩
  · exact ⟨named, positive⟩
  · rw [hash, index] at named
    exact absurd (named ▸ member) (unnamed a w held)

end

section Exact

variable (succeeded : Succeeded ctx env tx s paid entered f ran) (idle : s.Idle)
  (keeps : KeepsBooks ctx env tx s)
  (values : ∀ trace f entered a v, outermost ctx env tx s = some (trace, f, entered) →
    s.stateUTXO a = some v →
    v.value.toNat + (total s.ledger + tx.value.toNat) * (trace.moves + 2) < 2 ^ 256)
  (performed : Performed ctx env tx (prepare ctx env tx s) entered f ran)
include succeeded idle keeps values performed

theorem exact (a : Address)
    (party : a ∈ parties (condensed ctx env tx ran).transfers) :
    (newBalance (condensed ctx env tx ran) a).toNat +
        sentNat (condensed ctx env tx ran).transfers a =
      spentValue (condensed ctx env tx ran) a +
        receivedNat (condensed ctx env tx ran).transfers a := by
  refine newBalance_exact (succeeded.solvent idle keeps.sender performed a party) ?_
  have outer := outermost_of_performed performed
  have bound := (succeeded.booked idle).transferTotal_le
  rw [total_saved idle succeeded.entry keeps.sender, Nat.mul_comm] at bound
  have few := Nat.mul_le_mul_left (total s.ledger + tx.value.toNat) succeeded.recorded
  have supply := keeps.supply _ _ _ outer
  rw [transfers_condensed]
  have value : spentValue (condensed ctx env tx ran) a ≤ total s.ledger + tx.value.toNat ∨
      ∃ v, s.stateUTXO a = some v ∧ spentValue (condensed ctx env tx ran) a ≤ v.value.toNat := by
    unfold spentValue
    cases found : (selectionVin (condensed ctx env tx ran)).find? a with
    | none => exact .inl (Nat.zero_le _)
    | some v =>
      rcases succeeded.selected idle performed found with ⟨_, _, rfl⟩ | ⟨w, held, _, _, same⟩
      · left
        simp only [elim_some]
        split
        · exact Nat.le_add_left _ _
        · exact Nat.zero_le _
      · refine .inr ⟨w, held, ?_⟩
        simp only [elim_some]
        split
        · rw [same]
        · exact Nat.zero_le _
  rcases value with small | ⟨v, held, small⟩
  · rw [Nat.mul_add] at supply few
    omega
  · have room := values _ _ _ a v outer held
    rw [Nat.mul_add] at room few
    omega

theorem made_of_value (positive : 0#256 < tx.value) :
    (tx.sender, ownVin (condensed ctx env tx ran)) ∈ spentVins (condensed ctx env tx ran) ∧
      payees (newBalances (condensed ctx env tx ran)).2.2.entries ≠ [] := by
  have found := succeeded.selected_sender idle performed positive
  have spent : spends (condensed ctx env tx ran) tx.sender (ownVin (condensed ctx env tx ran)) =
      true := by
    have own : 0#256 < (ownVin (condensed ctx env tx ran)).value := positive
    simp only [spends, own, decide_true, Bool.true_and]
    rfl
  refine ⟨(mem_spentVins_iff _ _ _).2 ⟨found, spent⟩, fun nobody => ?_⟩
  have party := selectionVin_isSome _ (isSome_iff_exists.2 ⟨_, found⟩)
  have solvent := succeeded.solvent idle keeps.sender performed
  -- without payees every new balance is zero, but the balances add up to what is spent
  have zero (a : Address) (member : a ∈ parties (condensed ctx env tx ran).transfers) :
      (newBalance (condensed ctx env tx ran) a).toNat = 0 := by
    by_contra nonzero
    have paid := (mem_payees (condensed ctx env tx ran) a _).2
      ⟨⟨(solvent.reached_iff a).2 member, rfl⟩, BitVec.lt_def.2 (Nat.pos_of_ne_zero nonzero)⟩
    rw [nobody] at paid
    cases paid
  have sums := sum_newBalance (succeeded.exact idle keeps values performed)
  rw [Finset.sum_eq_zero zero] at sums
  have none := (Finset.sum_eq_zero_iff.1 sums.symm) tx.sender party
  unfold spentValue at none
  simp only [found, elim_some, spent, if_true] at none
  have own : 0 < tx.value.toNat := BitVec.lt_def.1 positive
  exact absurd none (Nat.pos_iff_ne_zero.1 own)

theorem accounted
    (fits : (createCondensingTX (condensed ctx env tx ran)).1.voutOverflow = false)
    (hashes : ∀ t, ctx.computeHash t ≠ 0) (unnamed : s.Unnamed outputs) {res : ResultExecute}
    (success : res.execRes.excepted = .none)
    (made : res.tx = (createCondensingTX (condensed ctx env tx ran)).2) :
    ByteCodeExec.Accounted ctx outputs tx res := by
  intro o member
  have solvent := succeeded.solvent idle keeps.sender performed
  obtain ⟨_, built, _⟩ := createCondensingTX_of_solvent _ solvent fits
  have only := succeeded.spends_iff idle performed unnamed member
  unfold contribution
  rw [if_neg fun both => both.1 success, nil_append, made, built]
  by_cases empty : ((spentVins (condensed ctx env tx ran)).isEmpty ||
      (payees (newBalances (condensed ctx env tx ran)).2.2.entries).isEmpty) = true
  · have null : getHash ctx.computeHash {} = 0 := rfl
    rw [if_pos empty, if_pos null, countP_nil, if_neg]
    rintro ⟨_, positive⟩
    obtain ⟨own, somebody⟩ := succeeded.made_of_value idle keeps values performed positive
    rcases Bool.or_eq_true_iff.1 empty with unspent | unpaid
    · rw [isEmpty_iff.1 unspent] at own
      cases own
    · exact somebody (isEmpty_iff.1 unpaid)
  · rw [if_neg empty]
    have present : (getHash ctx.computeHash
        { vin := (spentVins (condensed ctx env tx ran)).map spendInput,
          vout := (payees (newBalances (condensed ctx env tx ran)).2.2.entries).map
            (payment (condensed ctx env tx ran)) }) ≠ 0 := by
      have spent : (spentVins (condensed ctx env tx ran)).isEmpty = false := by
        cases h : (spentVins (condensed ctx env tx ran)).isEmpty
        · rfl
        · rw [h] at empty
          exact absurd rfl empty
      rw [getHash, isNull]
      simp only [isEmpty_map, spent, Bool.false_and, Bool.false_eq_true, if_false]
      exact hashes _
    rw [if_neg present, countP_singleton]
    by_cases own : tx.outpoint = o ∧ 0#256 < tx.value
    · rw [if_pos own, if_pos]
      obtain ⟨here, _⟩ := succeeded.made_of_value idle keeps values performed own.2
      refine any_eq_true.2 ⟨_, mem_map.2 ⟨_, here, rfl⟩, decide_eq_true own.1⟩
    · rw [if_neg own]
      exact if_neg fun spent => own (only spent)

end Exact

/-- What a successful execution records does not name the outputs of a list, if its condensing
transaction does not have their hash. -/
theorem unnamed (succeeded : Succeeded ctx env tx s paid entered f ran) (idle : s.Idle)
    (before : s.Unnamed outputs)
    (fresh : ∀ o ∈ outputs, (createCondensingTX (condensed ctx env tx ran)).2.getHash
      ctx.computeHash ≠ o.hash) :
    ((recordVins ctx tx (deletedState ctx env tx ran)).commitAll env).Unnamed outputs := by
  intro a v held listed
  rw [stateUTXO_commitAll (succeeded.committable idle).2] at held
  obtain ⟨held, _⟩ := filter_eq_some_iff.1 held
  have kept (old : (deletedState ctx env tx ran).vin a = some v) : False := by
    rw [vin_deletedState, succeeded.vin idle] at old
    split at old
    · obtain ⟨w, stored, rfl⟩ := map_eq_some_iff.1 old
      exact before a w stored listed
    · exact before a v old listed
  by_cases key : a ∈ (recordedVins ctx.computeHash (condensed ctx env tx ran)).map Prod.fst
  · obtain ⟨⟨b, w⟩, member, rfl⟩ := mem_map.1 key
    have written := vin_updateUTXO_of_mem _ (deletedState ctx env tx ran)
      (recordedVins_nodup ctx.computeHash (condensed ctx env tx ran)) member
    have same : v = w := by
      have held' := written.symm.trans held
      split at held'
      · exact (some.inj held').symm
      · cases held'
    obtain ⟨_, _, value⟩ := (mem_recordedVins_iff ctx.computeHash _ b w).1 member
    refine fresh _ listed ?_
    rw [same, value]
    split <;> rfl
  · exact kept ((vin_updateUTXO_of_not_mem _ (deletedState ctx env tx ran) a key).symm.trans held)

end Succeeded

/-! ## One transaction of a sequence -/

structure Between (outputs : List COutPoint) (s : ArtaxState) : Prop where
  idle : s.Idle
  mirrored : s.Mirrored
  unnamed : s.Unnamed outputs

theorem Between.of_tries {t : ArtaxState} (between : s.Between outputs) (idle : t.Idle)
    (tries : t.SameTries s) : t.Between outputs := by
  refine ⟨idle, fun a entry stored code => ?_, fun a v held => ?_⟩
  · rw [tries.stateUTXO]
    exact between.mirrored a entry (tries.trie ▸ stored) code
  · exact between.unnamed a v (tries.stateUTXO ▸ held)

theorem thrown_cases {s left : ArtaxState} {e : TransactionException} {limit : Bool}
    (thrown : tryBlock ctx env tx .committed s = some (.thrown left e limit logs)) :
    limit ∨ e ≠ .none := by
  unfold tryBlock at thrown
  split at thrown
  · cases thrown
    exact .inr nofun
  · split at thrown
    · rename_i e' initialised
      cases thrown
      refine .inr fun none => ?_
      subst none
      unfold Executive.initialise at initialised
      repeat' split at initialised
      all_goals cases initialised
    · split at thrown
      · cases thrown
        exact .inr nofun
      · split at thrown
        · cases thrown
          exact .inr nofun
        · split at thrown
          · cases thrown
          · simp only [conclude, settle, some.injEq] at thrown
            repeat' split at thrown
            all_goals cases thrown
            exact .inl rfl

section

variable (between : s.Between outputs)
include between

section

variable (orderly : Orderly ctx env outputs tx s)
  (finished : tryBlock ctx env tx .committed (prepare ctx env tx s) = some (.finished state res logs made))
  (idle : state.reset.Idle)
include orderly finished idle

theorem between_of_success (hashes : ∀ t, ctx.computeHash t ≠ 0) (success : res.excepted = .none) :
    state.reset.Between outputs ∧
      ByteCodeExec.Accounted ctx outputs tx ⟨reportAddress tx res, logs, made⟩ := by
  obtain ⟨keeps, fresh⟩ := orderly.succeeds _ _ _ _ finished success
  obtain ⟨entered, f, ran, performed, concluded⟩ := tryBlock_finished finished
  obtain ⟨rfl, ⟨succeeded, ended, fits, rfl⟩ | ⟨failed, _⟩⟩ := conclude_finished concluded
  · obtain ⟨paid, succeeded⟩ := succeeded_of_performed between.idle between.mirrored keeps performed
      succeeded
    have mirrored := succeeded.mirrored between.idle between.mirrored keeps performed
    have unnamed := succeeded.unnamed between.idle between.unnamed fresh
    refine ⟨⟨idle, ended ▸ mirrored.reset, ended ▸ unnamed.reset⟩, ?_⟩
    refine succeeded.accounted between.idle keeps orderly.values performed fits hashes
      between.unnamed ?_ rfl
    unfold reportAddress
    split <;> exact success
  · exact absurd success failed

theorem between_of_exception (excepted : res.excepted ≠ .none) :
    state.reset.Between outputs ∧ made = {} := by
  have free := orderly.excepts _ _ _ _ finished excepted
  obtain ⟨entered, f, ran, performed, concluded⟩ := tryBlock_finished finished
  obtain ⟨rfl, ⟨succeeded, _⟩ | ⟨failed, ended, none⟩⟩ := conclude_finished concluded
  · exact absurd succeeded excepted
  · refine ⟨?_, none⟩
    obtain ⟨trie, outputs'⟩ := excepted_onlyRemoves between.idle free performed failed
    obtain ⟨paid, left, entry, steps, rolled, _⟩ :=
      steps_of_excepted between.idle free performed failed
    have all := entry.steps.trans steps
    have listed : (deletedState ctx env tx ran).deleteAddresses = left.deleteAddresses := by
      rw [(deletedState_rest ctx env tx ran).2.1, rolled]
      rfl
    have mirrored : ((deletedState ctx env tx ran).commitAll env).Mirrored := by
      intro a record stored code
      rcases trie a with same | ⟨_, gone⟩
      · rw [stored] at same
        rcases outputs' a with kept | ⟨deleted, _⟩
        · rw [kept]
          exact between.mirrored a record same.symm code
        · -- a stored contract is not in the delete set
          obtain ⟨unlisted, notSender, notAuthor⟩ := orderly.stored a record same.symm code
          have account : (paid.incNonce tx.sender).account a = some (Account.ofRecord record) := by
            rw [entry.account_saved notSender, account_prepare between.idle.newAddress,
              if_neg notSender, between.idle.account, ← same]
            rfl
          have active : (paid.incNonce tx.sender).Active a := by
            refine ⟨_, account, .inr ?_⟩
            have nonempty : record.code.isEmpty = false := by simpa using code
            simp [Account.isEmpty, nonempty]
          have spared := all.not_mem_deleteAddresses entry.coherent active (by
            rw [entry.deleteAddresses_saved, mem_deleteAddresses_prepare]
            rintro (same | same | listed)
            · exact notAuthor same
            · exact notSender same
            · exact unlisted listed)
          exact absurd (listed ▸ deleted) spared
      · rw [stored] at gone
        cases gone
    have unnamed : ((deletedState ctx env tx ran).commitAll env).Unnamed outputs := by
      intro a v held
      rcases outputs' a with kept | ⟨_, gone⟩
      · exact between.unnamed a v (kept ▸ held)
      · rw [held] at gone
        cases gone
    exact ⟨idle, ended ▸ mirrored.reset, ended ▸ unnamed.reset⟩

end

theorem between_of_perform (hashes : ∀ t, ctx.computeHash t ≠ 0)
    (fixed : nFixUTXOCacheHFHeight ≤ ctx.chainHeight) (version : tx.version = .evmDefault)
    (orderly : Orderly ctx env outputs tx s) {after : ArtaxState} {res : ResultExecute}
    (performed : perform ctx env .committed tx s = some (after, res)) :
    after.Between outputs ∧ ByteCodeExec.Accounted ctx outputs tx res := by
  obtain ⟨parked, clean⟩ := perform_clean between.idle.parked between.idle.vinsClean fixed performed
  have idle := parked.idle clean
  unfold perform at performed
  split at performed
  · cases performed
    exact ⟨between.of_tries idle (store_fetch s _).tries,
      accounted_of_excepted (fun absurd => by cases absurd) rfl⟩
  · cases ended : tryBlock ctx env tx .committed (prepare ctx env tx s) with
    | none =>
      unfold execute at performed
      rw [if_neg (not_not.2 version), ended] at performed
      cases performed
    | some attempt =>
      cases attempt with
      | thrown left e limit logs =>
        rw [execute_thrown version ended] at performed
        cases performed
        refine ⟨between.of_tries idle (idle_of_thrown between.idle fixed ended).2, ?_⟩
        cases limit with
        | true => exact accounted_of_limit hashes e logs
        | false =>
          refine accounted_of_excepted ?_ rfl
          have excepted := (thrown_cases ended).resolve_left (by simp)
          simp only [thrownResult, Bool.false_eq_true, if_false, reportAddress]
          split <;> exact excepted
      | finished state result logs made =>
        rw [execute_finished version ended] at performed
        cases performed
        by_cases success : result.excepted = .none
        · exact between_of_success between orderly ended idle hashes success
        · obtain ⟨next, rfl⟩ := between_of_exception between orderly ended idle success
          refine ⟨next, accounted_of_excepted ?_ rfl⟩
          unfold reportAddress
          split <;> exact success

end

end ArtaxState

/-! ## Sequences -/

namespace ByteCodeExec

variable {ctx : ExecutionContext} {env : EnvInfo}

def OrderlyAll (ctx : ExecutionContext) (env : EnvInfo) (outputs : List COutPoint) :
    List ArtaxTransaction → ArtaxState → Prop
  | [], _ => True
  | tx :: rest, s => s.Orderly ctx env outputs tx ∧ ∀ after res,
      perform ctx env .committed tx s = some (after, res) → OrderlyAll ctx env outputs rest after

variable {outputs : List COutPoint} {txs : List ArtaxTransaction}

theorem accounted_performByteCode (hashes : ∀ t, ctx.computeHash t ≠ 0)
    (fixed : nFixUTXOCacheHFHeight ≤ ctx.chainHeight) {s after : ArtaxState}
    {before results : List ResultExecute} (between : s.Between outputs)
    (versions : ∀ tx ∈ txs, tx.version = .evmDefault) (orderly : OrderlyAll ctx env outputs txs s)
    (performed : performByteCode ctx env .committed txs s before = some (true, after, results)) :
    ∃ more, results = before ++ more ∧ List.Forall₂ (Accounted ctx outputs) txs more := by
  induction txs generalizing s before with
  | nil =>
    cases performed
    exact ⟨[], (append_nil _).symm, .nil⟩
  | cons tx rest ih =>
    have version := versions tx mem_cons_self
    simp only [performByteCode, version, ne_eq, not_true_eq_false, if_false] at performed
    split at performed
    · cases performed
    · rename_i next res step
      obtain ⟨between', accounted⟩ :=
        between_of_perform between hashes fixed version orderly.1 step
      obtain ⟨more, rfl, rest⟩ := ih between' (fun t member => versions t (.tail tx member))
        (orderly.2 _ _ step) performed
      exact ⟨res :: more, by simp, .cons accounted rest⟩

theorem countP_of_accounted {results : List ResultExecute}
    (accounted : List.Forall₂ (Accounted ctx outputs) txs results) {o : COutPoint}
    (member : o ∈ outputs) :
    ((txs.zip results).flatMap fun pair => contribution ctx pair.1 pair.2).countP
        (·.spendsOutpoint o) =
      txs.countP fun tx => decide (tx.outpoint = o ∧ 0#256 < tx.value) := by
  induction accounted with
  | nil => rfl
  | @cons tx res rest results head _ ih =>
    rw [zip_cons_cons, flatMap_cons, countP_append, ih, head o member,
      countP_cons]
    simp only [decide_eq_true_eq]
    exact Nat.add_comm _ _

theorem countP_outpoint (distinct : (txs.map outpoint).Nodup)
    {tx : ArtaxTransaction} (member : tx ∈ txs) :
    (txs.countP fun other => decide (other.outpoint = tx.outpoint ∧ 0#256 < other.value)) =
      if 0#256 < tx.value then 1 else 0 := by
  induction txs with
  | nil => cases member
  | cons head rest ih =>
    simp only [map_cons, nodup_cons] at distinct
    rw [countP_cons]
    rcases mem_cons.1 member with rfl | later
    · have none : (rest.countP fun other =>
          decide (other.outpoint = tx.outpoint ∧ 0#256 < other.value)) = 0 := by
        refine countP_eq_zero.2 fun other listed both => ?_
        exact distinct.1 ((of_decide_eq_true both).1 ▸ mem_map_of_mem listed)
      rw [none]
      simp
    · have other : head.outpoint ≠ tx.outpoint := fun same =>
        distinct.1 (same ▸ mem_map_of_mem later)
      rw [ih distinct.2 later]
      simp [other]

/-- If every execution is orderly, each contract output that carries value is spent by exactly one
value transfer, and no other contract output by any. -/
theorem coins_accounted_once (txs : List ArtaxTransaction) {s after : ArtaxState}
    {results : List ResultExecute} {out : ByteCodeExecResult} (idle : s.Idle)
    (mirrored : s.Mirrored) (versions : ∀ tx ∈ txs, tx.version = .evmDefault)
    (hashes : ∀ t, ctx.computeHash t ≠ 0) (fixed : nFixUTXOCacheHFHeight ≤ ctx.chainHeight)
    (distinct : (txs.map outpoint).Nodup)
    (unnamed : s.Unnamed (txs.map outpoint))
    (orderly : OrderlyAll ctx env (txs.map outpoint) txs s)
    (performed : performByteCode ctx env .committed txs s [] = some (true, after, results))
    (processed : processingResults ctx (txs.zip results) {} = some out) :
    ∀ tx ∈ txs, out.valueTransfers.countP (·.spendsOutpoint tx.outpoint) =
      if 0#256 < tx.value then 1 else 0 := by
  intro tx member
  obtain ⟨_, rfl, accounted⟩ := accounted_performByteCode hashes fixed
    ⟨idle, mirrored, unnamed⟩ versions orderly performed
  rw [valueTransfers_processingResults processed]
  change ((txs.zip results).flatMap fun pair => contribution ctx pair.1 pair.2).countP _ = _
  rw [countP_of_accounted accounted (mem_map_of_mem member)]
  exact countP_outpoint distinct member

def payingCall : ArtaxTransaction := { sampleCall with value := 1#256, hashWith := 4 }

theorem orderly_payingCall : twoContracts.Orderly (.sample (.stop [])) sampleEnv
    [⟨4, 0⟩] payingCall := by
  have stored (a : Address) (entry : AccountRecord)
      (found : twoContracts.trie a = some entry) : a ∉ twoContracts.deleteAddresses ∧
        a ≠ payingCall.sender ∧ a ≠ sampleEnv.author := by
    rcases twoContracts_cases found with ⟨rfl, _⟩ | ⟨rfl, _⟩ <;> decide
  refine ⟨fun a entry found _ => stored a entry found, fun state res logs made _ _ => ⟨?_, ?_⟩,
    fun trace f entered a v outer held => ?_, fun state res logs made _ _ => ?_⟩
  · refine ⟨fun a entry found _ => stored a entry found, rfl, fun trace f entered outer => ?_,
      fun _ _ _ _ _ _ creation => (by cases creation), fun trace f entered outer => ?_⟩
    · cases outer
      exact ⟨fun _ member => (by cases member), fun _ member => (by cases member)⟩
    · cases outer
      rw [total_twoContracts]
      decide
  · intro o member
    rw [mem_singleton.1 member, getHash]
    split <;> (intro absurd; cases absurd)
  · cases outer
    rw [total_twoContracts]
    simp only [twoContracts] at held
    split at held
    · cases held
      decide
    · cases held
  · exact ⟨fun absurd => (by cases absurd), fun entered f executed frame => by
      cases executed
      cases frame
      exact ⟨fun _ member => (by cases member), fun _ member => (by cases member)⟩⟩

theorem unnamed_twoContracts : twoContracts.Unnamed [⟨4, 0⟩] := by
  intro a v held
  simp only [twoContracts] at held
  split at held
  · cases held
    decide
  · cases held

/-- The coin of the call is spent by the one value transfer there is. -/
theorem payingCall_accounted_once :
    ∃ after results out, performByteCode (.sample (.stop [])) sampleEnv .committed [payingCall]
        twoContracts [] = some (true, after, results) ∧
      processingResults (.sample (.stop [])) ([payingCall].zip results) {} = some out ∧
      out.valueTransfers.countP (·.spendsOutpoint ⟨4, 0⟩) = 1 := by
  refine ⟨_, _, _, rfl, rfl, ?_⟩
  exact coins_accounted_once [payingCall] idle_twoContracts
    mirrored_twoContracts (fun tx member => by rw [mem_singleton.1 member]; rfl)
    (fun _ => Nat.one_ne_zero) (by decide) (nodup_singleton _) unnamed_twoContracts
    ⟨orderly_payingCall, fun _ _ _ => trivial⟩ rfl rfl payingCall mem_cons_self

/-- Contract 7 pays contract 8 in a frame that is rolled back and once more: it counts as overdrawn,
and the coin of the call is spent by nothing. -/
theorem payingCall_unaccounted :
    twoContracts.Idle ∧ twoContracts.Mirrored ∧
    twoContracts.Unnamed [payingCall.outpoint] ∧
    ∃ after results out, performByteCode (.sample repeatedPayment) sampleEnv
        .committed [payingCall] twoContracts [] = some (true, after, results) ∧
      processingResults (.sample repeatedPayment) ([payingCall].zip results) {} = some out ∧
      0#256 < payingCall.value ∧ out.valueTransfers = [] := by
  refine ⟨idle_twoContracts, mirrored_twoContracts, unnamed_twoContracts, ?_⟩
  have computed : (performByteCode (.sample repeatedPayment) sampleEnv .committed
      [payingCall] twoContracts []).map (fun done => (done.1,
        (processingResults (.sample repeatedPayment) ([payingCall].zip done.2.2) {}).map
          ByteCodeExecResult.valueTransfers)) = some (true, some []) := by
    decide +kernel
  obtain ⟨⟨ok, after, results⟩, performed, same⟩ := map_eq_some_iff.1 computed
  simp only [Prod.mk.injEq, map_eq_some_iff] at same
  obtain ⟨rfl, out, processed, none⟩ := same
  exact ⟨after, results, out, performed, processed, by decide, none⟩

end ByteCodeExec
end Artax
