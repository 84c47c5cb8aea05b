import Artax.Aal.Entry

/-!
# Failed executions

An exception inside the try block of `execute` drops both caches and leaves no trace. One inside the
virtual machine rolls the frame back and still commits; if addresses do not collide, the tries then
lose what the delete set names and keep everything else.
-/

namespace Artax

open Executive

namespace ArtaxState

variable {ctx : ExecutionContext} {env : EnvInfo} {tx : ArtaxTransaction} {s : ArtaxState}

/-! ## How the try block ends -/

structure Performed (ctx : ExecutionContext) (env : EnvInfo) (tx : ArtaxTransaction)
    (s : ArtaxState) (entered : Executive.Entered) (f : Frame) (ran : Executive.Ran) : Prop where
  valid : ¬(tx.isCreation = true ∧ tx.value ≠ 0#256)
  initialised : Executive.initialise ctx env tx s = none
  executed : Executive.execute ctx env tx s = some entered
  frame : entered.frame = some f
  went : Executive.go ctx env tx entered f = some ran

variable {p : Permanence} {state left t paid : ArtaxState} {res : ExecutionResult}
  {logs : List LogEntry} {made : CTransaction} {e : TransactionException} {ran : Executive.Ran}
  {entered : Executive.Entered} {f : Frame}

theorem tryBlock_finished (ended : tryBlock ctx env tx p s = some (.finished state res logs made)) :
    ∃ entered f ran, Performed ctx env tx s entered f ran ∧
      conclude ctx env tx p entered.savepoint ran = .finished state res logs made := by
  unfold tryBlock at ended
  split at ended
  · cases ended
  · rename_i valid
    split at ended
    · cases ended
    · rename_i initialised
      split at ended
      · cases ended
      · rename_i entered executed
        split at ended
        · cases ended
        · rename_i f frame
          split at ended
          · cases ended
          · rename_i ran went
            exact ⟨entered, f, ran, ⟨valid, initialised, executed, frame, went⟩,
              Option.some.inj ended⟩

theorem execute_finished (version : tx.version = .evmDefault)
    (finished : tryBlock ctx env tx p (prepare ctx env tx s) =
      some (.finished state res logs made)) :
    execute ctx env tx p s = some (state.reset, ⟨reportAddress tx res, logs, made⟩) := by
  unfold execute
  rw [if_neg (not_not.2 version), finished]

theorem execute_thrown {limit : Bool} (version : tx.version = .evmDefault)
    (thrown : tryBlock ctx env tx p (prepare ctx env tx s) = some (.thrown left e limit logs)) :
    execute ctx env tx p s =
      some ((catchBlock ctx p left).reset, thrownResult ctx tx e limit logs) := by
  unfold execute
  rw [if_neg (not_not.2 version), thrown]

theorem conclude_finished {savepoint : Nat}
    (concluded : conclude ctx env tx .committed savepoint ran = .finished state res logs made) :
    res = finalizeResult ctx tx ran ∧
    ((ran.excepted = .none ∧ state = (recordVins ctx tx (deletedState ctx env tx ran)).commitAll env ∧
        (CondensingTX.createCondensingTX
          (condensingInput ctx tx (deletedState ctx env tx ran))).1.voutOverflow = false ∧
        made = (CondensingTX.createCondensingTX
          (condensingInput ctx tx (deletedState ctx env tx ran))).2) ∨
      (ran.excepted ≠ .none ∧ state = (deletedState ctx env tx ran).commitAll env ∧ made = {})) := by
  unfold conclude settle at concluded
  simp only [] at concluded
  split at concluded
  · rename_i succeeded
    split at concluded
    · cases concluded
    · rename_i fits
      simp only [Attempt.finished.injEq] at concluded
      exact ⟨concluded.2.1.symm, .inl ⟨succeeded, concluded.1.symm, by simpa using fits,
        concluded.2.2.2.symm⟩⟩
  · rename_i failed
    simp only [Attempt.finished.injEq] at concluded
    exact ⟨concluded.2.1.symm, .inr ⟨failed, concluded.1.symm, concluded.2.2.2.symm⟩⟩

theorem go_excepted (went : go ctx env tx entered f = some ran)
    (excepted : ran.excepted ≠ .none) :
    ∃ left e, run ctx.sealEngine env (ctx.vm env tx entered.state.account).trace f entered.state {} =
        some (.threw left e) ∧ ran.state = left.rollback entered.savepoint ∧ ran.sub = {} := by
  unfold go at went
  simp only [] at went
  split at went
  · cases went
  · rename_i left e ended
    cases went
    exact ⟨left, e, ended, rfl, rfl⟩
  · cases went
    exact absurd rfl excepted

theorem go_succeeded (went : go ctx env tx entered f = some ran)
    (succeeded : ran.excepted = .none) :
    ∃ left output, run ctx.sealEngine env (ctx.vm env tx entered.state.account).trace f
        entered.state {} = some (.done left ran.sub output) ∧
      ran.state = if tx.isCreation then left.setNewCode f.myAddress output else left := by
  unfold go at went
  simp only [] at went
  split at went
  · cases went
  · rename_i left e ended
    cases went
    exact absurd succeeded (VMException.toTransactionException_ne_none e)
  · rename_i left sub output ended
    cases went
    exact ⟨left, output, ended, rfl⟩

/-! ## Exceptions that `execute` catches -/

theorem idle_of_thrown (idle : s.Idle) (fixed : nFixUTXOCacheHFHeight ≤ ctx.chainHeight)
    {limit : Bool}
    (thrown : tryBlock ctx env tx p (prepare ctx env tx s) = some (.thrown left e limit logs)) :
    (catchBlock ctx p left).reset.Idle ∧ (catchBlock ctx p left).reset.SameTries s := by
  have store : (prepare ctx env tx s).SameStore s := store_prepare s
  have alive : (prepare ctx env tx s).VinsAlive := fun a v stored =>
    idle.vinsAlive a v (store.stateUTXO ▸ stored)
  have coherent : (prepare ctx env tx s).Coherent := coherent_prepare idle.coherent
  have both := (Alike.refl coherent).tryBlock ctx env tx alive p
  rw [thrown] at both
  cases both with
  | some ended =>
    obtain ⟨⟨⟨_, _, alike⟩, kept, _⟩, _⟩ := ended
    have tries := kept.trans store.tries
    have caught : catchBlock ctx p left = left.clearCaches :=
      if_neg fun early => absurd early.1 (Int.not_lt.2 fixed)
    rw [caught]
    refine ⟨⟨?_, fun a => .inl rfl, nofun, fun a v stored => idle.vinsAlive a v ?_, rfl, rfl⟩,
      ⟨tries.trie, tries.stateUTXO, tries.startNonce⟩⟩
    · exact alike.coherent
    · exact tries.stateUTXO ▸ stored

/-- The two executions give the same result and leave the same tries, or both end the process. -/
def SameExecution (x y : Option (ArtaxState × ResultExecute)) : Prop :=
  Option.Rel (fun left right => left.2 = right.2 ∧ left.1.SameTries right.1) x y

theorem Idle.sameExecution (left : t.Idle) (right : s.Idle) (tries : t.SameTries s)
    (deletes : List Address) (p : Permanence) :
    SameExecution (execute ctx env tx p { t with deleteAddresses := deletes })
      (execute ctx env tx p { s with deleteAddresses := deletes }) := by
  have both := ((left.withDeletes deletes).alike (right.withDeletes deletes)
    ⟨tries.trie, tries.stateUTXO, tries.startNonce⟩ rfl).executes right.vinsAlive ctx env tx p
  exact both.casesOn (fun same => .some same.1) .none

/-! ## Exceptions of the virtual machine -/

theorem committedEntry_of_standsFor {x : Option Account} {stored : Option AccountRecord}
    (stands : Option.Rel Account.StandsFor x (stored.map Account.ofRecord)) (removeEmpty : Bool) :
    committedEntry removeEmpty x stored = stored := by
  cases stored with
  | none =>
    cases stands
    rfl
  | some entry =>
    cases stands with
    | @some y _ same =>
      simp only [committedEntry, commitEntry, Option.map_some]
      by_cases dirty : y.isDirty = true
      · have full : y.isEmpty = false := by
          by_contra full
          have empty : y.isEmpty := by simpa using full
          have mark := same.empty (same.isEmpty_eq ▸ empty)
          rw [Account.isDirty, mark] at dirty
          cases dirty
        have alive : y.isAlive := same.isAlive
        have entry' : y.toRecord = entry := same.toRecord_eq
        simp [dirty, full, alive, entry']
      · simp [dirty]

theorem committedEntry_kill (x : Account) (stored : Option AccountRecord) (removeEmpty : Bool) :
    committedEntry removeEmpty (some x.kill) stored = none := by
  cases removeEmpty <;> rfl

def OnlyRemoves {α : Type} (deletes : List Address) (after before : Address → Option α) : Prop :=
  ∀ a, after a = before a ∨ (a ∈ deletes ∧ after a = none)

theorem commit_onlyRemoves (env : EnvInfo) {z : ArtaxState} (coherent : z.Coherent) (alive : z.VinsAlive)
    (vins : ∀ a, z.vin a = z.stateUTXO a)
    (stands : ∀ a, a ∉ z.deleteAddresses →
      Option.Rel Account.StandsFor (z.account a) ((z.trie a).map Account.ofRecord)) :
    OnlyRemoves z.deleteAddresses ((z.deleteAccounts z.deleteAddresses).commitAll env).trie z.trie ∧
      OnlyRemoves z.deleteAddresses ((z.deleteAccounts z.deleteAddresses).commitAll env).stateUTXO
        z.stateUTXO := by
  have tries := tries_foldl_kill z z.deleteAddresses
  have deleted : (z.deleteAccounts z.deleteAddresses).Coherent :=
    coherent_foldl_kill coherent z.deleteAddresses
  have alive' : (z.deleteAccounts z.deleteAddresses).VinsAlive := fun a v stored =>
    alive a v (tries.stateUTXO ▸ stored)
  constructor
  · intro a
    rw [trie_commitAll deleted, deleteAccounts, account_foldl_kill, tries.trie]
    by_cases member : a ∈ z.deleteAddresses
    · rw [if_pos member]
      cases found : z.account a with
      | some x => exact .inr ⟨member, committedEntry_kill x _ _⟩
      | none => exact .inl rfl
    · rw [if_neg member]
      exact .inl (committedEntry_of_standsFor (stands a member) _)
  · intro a
    rw [stateUTXO_commitAll alive', deleteAccounts, vin_foldl_kill, vins]
    by_cases member : a ∈ z.deleteAddresses
    · rw [if_pos member]
      cases found : z.stateUTXO a with
      | some v => exact .inr ⟨member, rfl⟩
      | none => exact .inl rfl
    · rw [if_neg member]
      refine .inl ?_
      cases found : z.stateUTXO a with
      | some v => simp [Option.filter, alive a v found]
      | none => rfl

/-- No frame meets an address collision: a creation finds no account at its address, and code is
never set where there is code. -/
structure CollisionFree (ctx : ExecutionContext) (env : EnvInfo) (tx : ArtaxTransaction)
    (s : ArtaxState) : Prop where
  derived : tx.isCreation = true → (prepare ctx env tx s).account
    (ctx.sealEngine.contractAddress tx.sender ((prepare ctx env tx s).getNonce tx.sender)) = none
  deployed : ∀ entered f, Executive.execute ctx env tx (prepare ctx env tx s) = some entered →
    entered.frame = some f →
    (history ctx.sealEngine env (ctx.vm env tx entered.state.account).trace f
      entered.state).Allowed .free

/-- The next account is created where it is named. -/
def NoRedirect (s : ArtaxState) : Prop := s.newAddress = 0 ∨ s.addressInUse s.newAddress = true

section

variable (settled : s.NoRedirect) (a : Address)
include settled

theorem NoRedirect.creditAddress : s.creditAddress a = a := by
  unfold ArtaxState.creditAddress
  rcases settled with zero | used
  · simp [zero]
  · simp [used]

theorem NoRedirect.newAddressAfterCredit : s.newAddressAfterCredit a = s.newAddress := by
  unfold ArtaxState.newAddressAfterCredit
  cases s.account a with
  | some x => rfl
  | none =>
    rcases settled with zero | used
    · simp [zero]
    · simp [used]

theorem NoRedirect.addBalance (amount : U256) : (s.addBalance a amount).1.NoRedirect := by
  have same : (s.addBalance a amount).1.newAddress = s.newAddress := by
    rw [newAddress_addBalance, settled.newAddressAfterCredit]
  rcases settled with zero | used
  · exact .inl (same.trans zero)
  · refine .inr ?_
    unfold addressInUse at used ⊢
    rw [same, account_addBalance]
    split
    · rfl
    · exact used

end

theorem getNonce_subBalance {a b : Address} {value : U256} (taken : s.subBalance b value = some t) :
    t.getNonce a = s.getNonce a := by
  obtain ⟨_, rfl⟩ | ⟨_, x, found, _, rfl⟩ := subBalance_eq_some_iff.1 taken
  · rfl
  · unfold getNonce
    rw [account_addBalance, creditAddress_of_some found, (store_addBalance s b _).startNonce]
    by_cases same : a = b
    · rw [if_pos same, same, found, credited, found]
      rfl
    · rw [if_neg same]

/-- A creation whose derived address is not in use takes the reserved address, unless that one is
in use itself. -/
theorem newAddress_openAccount {se : SealEngine} {creator : Address} {made : Executive.Creation}
    (opened : openAccount se env creator 0#256 paid = some made)
    (absent : (paid.incNonce creator).account (se.contractAddress creator (paid.getNonce creator)) =
      none) :
    made.state.newAddress = 0 ∨ (made.state.newAddress = (paid.incNonce creator).newAddress ∧
      (paid.incNonce creator).addressInUse (paid.incNonce creator).newAddress) := by
  unfold openAccount at opened
  simp only [] at opened
  split at opened
  · cases opened
  · rename_i t newAddress moved
    obtain ⟨u, taken, _, same⟩ := transferBalance_eq_some_iff.1 moved
    have unpaid : u = paid.incNonce creator := by
      obtain ⟨_, rfl⟩ | ⟨nonzero, _⟩ := subBalance_eq_some_iff.1 taken
      · rfl
      · exact absurd rfl nonzero
    have reserved : made.state.newAddress =
        (paid.incNonce creator).newAddressAfterCredit
          (se.contractAddress creator (paid.getNonce creator)) := by
      have here : t.newAddress = made.state.newAddress := by
        cases opened
        split
        · exact (incNonce_rest t newAddress).1.symm
        · rfl
      rw [← here, same, unpaid]
      exact newAddress_addBalance _ _ _
    rw [reserved, newAddressAfterCredit, absent]
    simp only []
    split
    · exact .inl rfl
    · rename_i occupied
      by_cases zero : (paid.incNonce creator).newAddress = 0
      · exact .inl zero
      · exact .inr ⟨rfl, by simpa [zero] using occupied⟩

theorem noRedirect_of_rollback (idle : s.Idle) (free : CollisionFree ctx env tx s)
    (entry : Entry ctx env tx .free (prepare ctx env tx s) paid entered f)
    (steps : Steps .free entered.state left) :
    (left.rollback entered.savepoint).NoRedirect := by
  have later := steps.newAddress
  have restored := (entry.steps.trans steps).restores entry.coherent
  rw [← entry.savepoint] at restored
  change left.newAddress = 0 ∨ ((left.rollback entered.savepoint).account left.newAddress).isSome
  have saved : (paid.incNonce tx.sender).newAddress = (prepare ctx env tx s).newAddress ∨
      (paid.incNonce tx.sender).newAddress = 0 := by
    rw [(incNonce_rest paid tx.sender).1]
    exact (subBalance_rest entry.taken).1
  cases creates : tx.isCreation with
  | false =>
    have zero : (prepare ctx env tx s).newAddress = 0 := by simp [prepare, creates]
    left
    rcases later with same | gone
    · rcases entry.steps.newAddress with same' | gone
      · rw [same, same']
        exact saved.elim (fun unchanged => unchanged.trans zero) id
      · exact same.trans gone
    · exact gone
  | true =>
    have present : (prepare ctx env tx s).account tx.sender ≠ none := by
      rw [account_prepare idle.newAddress, if_pos rfl]
      simp
    have derived := free.derived creates
    have other : ctx.sealEngine.contractAddress tx.sender
        ((prepare ctx env tx s).getNonce tx.sender) ≠ tx.sender := by
      intro same
      rw [same] at derived
      exact present derived
    rw [← getNonce_subBalance entry.taken] at derived other
    have absent := (entry.account_saved other).trans derived
    rcases newAddress_openAccount (entry.created creates).2 absent with zero | ⟨same, used⟩
    · exact .inl (later.elim (fun unchanged => unchanged.trans zero) id)
    · rcases later with unchanged | gone
      · right
        rw [unchanged, same]
        rcases restored.account_cases (paid.incNonce tx.sender).newAddress with
          ⟨_, missing⟩ | ⟨y, _, here, _⟩
        · rw [addressInUse, missing] at used
          cases used
        · rw [here]
          rfl
      · exact .inl gone

section Excepted

variable (idle : s.Idle) (free : CollisionFree ctx env tx s)
  (performed : Performed ctx env tx (prepare ctx env tx s) entered f ran)
  (excepted : ran.excepted ≠ .none)
include idle free performed excepted

/-- An execution that ends by an exception of the virtual machine is a sequence of steps that is
rolled back. -/
theorem steps_of_excepted :
    ∃ paid left, Entry ctx env tx .free (prepare ctx env tx s) paid entered f ∧
      Steps .free entered.state left ∧ ran.state = left.rollback entered.savepoint ∧
      ran.sub = {} := by
  obtain ⟨left, e, ended, rolled, clean⟩ := go_excepted performed.went excepted
  obtain ⟨paid, entry⟩ := entry_of_execute (m := .free) (coherent_prepare idle.coherent)
    (dirty_prepare idle.newAddress) performed.valid (fun _ => trivial) performed.executed
    performed.frame
  have coherent := (entry.steps.journaled entry.coherent).coherent
  exact ⟨paid, left, entry, (run_stepped _ (Ready.free coherent entry.active)
    (free.deployed entered f performed.executed performed.frame) ended).steps, rolled, clean⟩

/-- Before the delete set is carried out, after an exception of the virtual machine: every account
but sender and author stands for the stored one. -/
theorem excepted_standsFor :
    let z := finalizeState ctx env tx ran
    z.Coherent ∧ z.SameStore s ∧ tx.sender ∈ z.deleteAddresses ∧ env.author ∈ z.deleteAddresses ∧
      ∀ a, a ≠ tx.sender → a ≠ env.author →
        Option.Rel Account.StandsFor (z.account a) (s.account a) := by
  obtain ⟨paid, left, entry, steps, rolled, clean⟩ := steps_of_excepted idle free performed excepted
  have restored := (entry.steps.trans steps).restores entry.coherent
  rw [← entry.savepoint, ← rolled] at restored
  have settled := noRedirect_of_rollback idle free entry steps
  rw [← rolled] at settled
  have member {a : Address} (listed : a ∈ (prepare ctx env tx s).deleteAddresses) :
      a ∈ ran.state.deleteAddresses := by
    rw [rolled]
    exact (entry.steps.trans steps).deleteAddresses_subset
      (by rw [entry.deleteAddresses_saved]; exact listed)
  unfold finalizeState
  simp only [clean, List.foldl_nil]
  have settled' := settled.addBalance tx.sender (finalGas ctx tx ran * tx.gasPrice)
  refine ⟨?_, ?_, ?_, ?_, fun a notSender notAuthor => ?_⟩
  · exact coherent_addBalance (coherent_addBalance restored.coherent _ _) _ _
  · exact (store_addBalance _ _ _).trans ((store_addBalance _ _ _).trans
      (restored.store.trans (entry.store_saved.trans (store_prepare s))))
  · rw [deleteAddresses_addBalance, deleteAddresses_addBalance]
    exact member ((mem_deleteAddresses_prepare _).2 (.inr (.inl rfl)))
  · rw [deleteAddresses_addBalance, deleteAddresses_addBalance]
    exact member ((mem_deleteAddresses_prepare _).2 (.inl rfl))
  · rw [account_addBalance, settled'.creditAddress, if_neg notAuthor, account_addBalance,
      settled.creditAddress, if_neg notSender]
    have related := restored.accounts a
    rw [entry.account_saved notSender, account_prepare idle.newAddress, if_neg notSender] at related
    exact related

theorem excepted_onlyRemoves :
    OnlyRemoves (deletedState ctx env tx ran).deleteAddresses
        ((deletedState ctx env tx ran).commitAll env).trie s.trie ∧
      OnlyRemoves (deletedState ctx env tx ran).deleteAddresses
        ((deletedState ctx env tx ran).commitAll env).stateUTXO s.stateUTXO := by
  obtain ⟨coherent, store, sender, author, stands⟩ := excepted_standsFor idle free performed excepted
  have removed := commit_onlyRemoves env coherent
    (fun a v stored => idle.vinsAlive a v (store.stateUTXO ▸ stored))
    (fun a => by rw [vin, store.cacheUTXO, store.stateUTXO]; exact idle.vin a)
    (fun a outside => by
      rw [store.trie, ← idle.account]
      exact stands a (fun same => outside (same ▸ sender)) (fun same => outside (same ▸ author)))
  have listed : (deletedState ctx env tx ran).deleteAddresses =
      (finalizeState ctx env tx ran).deleteAddresses := (foldl_kill_rest _ _).2
  rw [listed, ← store.trie, ← store.stateUTXO]
  exact removed

end Excepted

/-- An exception in the try block leaves both tries as they were, and every later execution goes as
if this one had not happened. An exception of the virtual machine, without address collisions, at
most removes entries of the delete set. -/
theorem failed_execution_leaves_no_trace (ctx : ExecutionContext) (env : EnvInfo)
    (tx : ArtaxTransaction) (idle : s.Idle) (version : tx.version = .evmDefault)
    (fixed : nFixUTXOCacheHFHeight ≤ ctx.chainHeight) :
    (∀ left e limit logs, tryBlock ctx env tx .committed (prepare ctx env tx s) =
        some (.thrown left e limit logs) →
      ∃ after, execute ctx env tx .committed s = some (after, thrownResult ctx tx e limit logs) ∧
        after.trie = s.trie ∧ after.stateUTXO = s.stateUTXO ∧
        ∀ ctx' env' tx' p deletes, SameExecution
          (execute ctx' env' tx' p { after with deleteAddresses := deletes })
          (execute ctx' env' tx' p { s with deleteAddresses := deletes })) ∧
    (CollisionFree ctx env tx s → ∀ state res logs made,
      tryBlock ctx env tx .committed (prepare ctx env tx s) =
        some (.finished state res logs made) → res.excepted ≠ .none →
      ∃ after, execute ctx env tx .committed s = some (after, ⟨reportAddress tx res, logs, made⟩) ∧
        OnlyRemoves after.deleteAddresses after.trie s.trie ∧
        OnlyRemoves after.deleteAddresses after.stateUTXO s.stateUTXO) := by
  constructor
  · intro left e limit logs thrown
    obtain ⟨idle', tries⟩ := idle_of_thrown idle fixed thrown
    refine ⟨_, execute_thrown version thrown, tries.trie, tries.stateUTXO, ?_⟩
    intro ctx' env' tx' p deletes
    exact idle'.sameExecution idle tries deletes p
  · intro free state res logs made finished excepted
    obtain ⟨entered, f, ran, performed, concluded⟩ := tryBlock_finished finished
    obtain ⟨rfl, ⟨succeeded, _⟩ | ⟨failed, ended, _⟩⟩ := conclude_finished concluded
    · exact absurd succeeded excepted
    refine ⟨_, execute_finished version finished, ?_⟩
    rw [ended]
    exact excepted_onlyRemoves idle free performed failed

def sampleEnv : EnvInfo := { number := 1, author := 2, gasLimit := 100 }

def sampleCreation : ArtaxTransaction :=
  { isCreation := true, value := 0#256, gasPrice := 1#256, gas := 10#256, data := [0], sender := 1 }

def sampleCall : ArtaxTransaction :=
  { isCreation := false, value := 0#256, gasPrice := 1#256, gas := 10#256, receiveAddress := 7,
    data := [], sender := 1 }

/-- Contract 7 has five coins in one output, and contract 8 has none. -/
def twoContracts : ArtaxState where
  trie := fun a =>
    if a = 7 then some ⟨1#256, 5#256, fun _ => 0#256, [1]⟩
    else if a = 8 then some ⟨1#256, 0#256, fun _ => 0#256, [1]⟩ else none
  stateUTXO := fun a => if a = 7 then some ⟨3, 0, 5#256, true⟩ else none

theorem idle_twoContracts : twoContracts.Idle := by
  refine ⟨nofun, fun _ => .inl rfl, nofun, fun a v held => ?_, rfl, rfl⟩
  simp only [twoContracts] at held
  split at held
  · cases held
    rfl
  · cases held

/-- Pays two coins to contract 8 and writes to the storage before it runs out of gas. -/
def payingFailure : Trace :=
  .call .call 8 2#256 true (.stop []) (.sstore 1#256 1#256 (.exception .outOfGas))

theorem collisionFree_payingFailure :
    CollisionFree (.sample payingFailure) sampleEnv { sampleCall with value := 1#256 } twoContracts := by
  refine ⟨nofun, fun entered f ran frame => ?_⟩
  cases ran
  cases frame
  exact ⟨nofun, nofun⟩

/-- A creation with an endowment throws, and a call is committed whose contract pays and then runs out
of gas. Both leave the contract and its output as they were. -/
theorem failed_execution_leaves_no_trace_twoContracts :
    (∃ after, execute (.sample payingFailure) sampleEnv { sampleCreation with value := 1#256 }
        .committed twoContracts = some (after, thrownResult (.sample payingFailure)
          { sampleCreation with value := 1#256 } .createWithValue false []) ∧
      after.trie = twoContracts.trie ∧ after.stateUTXO = twoContracts.stateUTXO) ∧
    ∃ after result, execute (.sample payingFailure) sampleEnv { sampleCall with value := 1#256 }
        .committed twoContracts = some (after, result) ∧ result.execRes.excepted = .outOfGas ∧
      after.trie 7 = twoContracts.trie 7 ∧ after.stateUTXO 7 = twoContracts.stateUTXO 7 := by
  constructor
  · obtain ⟨after, executed, trie, stateUTXO, _⟩ := (failed_execution_leaves_no_trace
      (.sample payingFailure) sampleEnv { sampleCreation with value := 1#256 } idle_twoContracts rfl
      (by decide)).1 _ .createWithValue false [] rfl
    exact ⟨after, executed, trie, stateUTXO⟩
  · obtain ⟨after, executed, trie, stateUTXO⟩ := (failed_execution_leaves_no_trace
      (.sample payingFailure) sampleEnv { sampleCall with value := 1#256 } idle_twoContracts rfl
      (by decide)).2 collisionFree_payingFailure _ _ _ _ rfl (by decide)
    have kept : 7 ∉ after.deleteAddresses := by
      cases executed
      decide
    exact ⟨after, _, executed, rfl, (trie 7).resolve_right fun gone => kept gone.1,
      (stateUTXO 7).resolve_right fun gone => kept gone.1⟩

def occupied : ArtaxState :=
  { trie := fun a => if a = 5 then some ⟨1#256, 0#256, fun _ => 0#256, []⟩ else none }

theorem idle_occupied : occupied.Idle :=
  ⟨nofun, fun _ => .inl rfl, nofun, nofun, rfl, rfl⟩

/-- On a collision the fees of the failed creation go to an account at the reserved address, which
the commit then adds to the trie. -/
theorem collision_adds_account : occupied.Idle ∧
    ∃ state res, tryBlock (.sample (.exception .outOfGas)) sampleEnv sampleCreation .committed
        (prepare (.sample (.exception .outOfGas)) sampleEnv sampleCreation occupied) =
          some (.finished state res [] {}) ∧ res.excepted = .outOfGas ∧
      ∃ after result, execute (.sample (.exception .outOfGas)) sampleEnv sampleCreation .committed
          occupied = some (after, result) ∧ ¬ OnlyRemoves after.deleteAddresses after.trie
            occupied.trie := by
  refine ⟨idle_occupied, _, _, rfl, rfl, _, _, rfl, ?_⟩
  intro only
  rcases only 9 with same | ⟨listed, _⟩
  · exact absurd (congrArg Option.isSome same) (by decide)
  · exact absurd listed (by decide)

end ArtaxState
end Artax
