import Artax.Aal.FailedExecution

/-!
# Contracts that survive an execution

After a successful execution every address of the delete set loses its account. Where a contract is
neither sender nor author, only a suicide removes it.
-/

namespace Artax.ArtaxState

def unmarked : Monitor := ⟨fun _ => True, fun s a => a ∉ s.deleteAddresses, fun _ _ => True⟩

/-- A live account with code that is kept out of the delete set and will be committed with this
code, even where it is not marked as changed. -/
structure Surviving (s : ArtaxState) (a : Address) (code : Bytes) : Prop where
  account : ∃ x, s.account a = some x ∧ x.isAlive = true ∧ x.code = code ∧
    (x.isUnchanged = true → ∃ entry, s.trie a = some entry ∧ entry.code = code)
  kept : a ∉ s.deleteAddresses

/-- An account is left alone, or changed in its nonce, balance or storage. -/
def Retained (y x : Account) : Prop :=
  y = x ∨ (y.isUnchanged = false ∧ y.isAlive = x.isAlive ∧ y.code = x.code)

variable {x y : Account} {s t : ArtaxState} {a b : Address} {m : Monitor} {code : Bytes}

theorem Revised.retained {allowed : Prop} (revised : s.Revised a t allowed)
    (found : s.account a = some x) (code : x.code ≠ []) : ∃ y, t.account a = some y ∧ Retained y x := by
  rcases revised with ⟨same, _⟩ | ⟨y, cached, revised⟩
  · exact ⟨x, same.trans found, .inl rfl⟩
  · rw [found] at revised
    exact ⟨y, account_of_cached cached, .inr ⟨revised.changed, revised.alive,
      revised.code.resolve_right fun new => code new.1⟩⟩

theorem Surviving.retain (before : s.Surviving a code) (trie : t.trie = s.trie)
    (retained : ∀ x, s.account a = some x → x.code = code →
      ∃ y, t.account a = some y ∧ Retained y x) (kept : a ∉ t.deleteAddresses) :
    t.Surviving a code := by
  obtain ⟨x, found, alive, same, stored⟩ := before.account
  obtain ⟨y, here, rfl | ⟨changed, alive', same'⟩⟩ := retained x found same
  · exact ⟨⟨y, here, alive, same, trie ▸ stored⟩, kept⟩
  · refine ⟨⟨y, here, alive'.trans alive, same'.trans same, fun unchanged => ?_⟩, kept⟩
    rw [changed] at unchanged
    cases unchanged

theorem Steps.surviving (steps : Steps m s t) (coherent : s.Coherent) (nonempty : code ≠ [])
    (before : s.Surviving a code) : t.Surviving a code := by
  induction steps with
  | refl => exact before
  | @tail _ _ u v earlier step ih =>
    have here := ih coherent before
    refine here.retain (step.journaled (earlier.journaled coherent).coherent).store.trie
      (fun x found same => (step.revised a).retained found (same ▸ nonempty)) ?_
    intro listed
    obtain ⟨x, found, _⟩ := here.account
    rcases (step.mem_deleteAddresses a).2 listed with old | absent
    · exact here.kept old
    · rw [found] at absent
      cases absent
  | @revert _ _ u v earlier frame _ ih ihFrame =>
    have here := ih coherent before
    have inside := ihFrame (earlier.journaled coherent).coherent here
    have restored := frame.restores (earlier.journaled coherent).coherent
    obtain ⟨x, found, alive, same, stored⟩ := here.account
    rcases restored.account_cases a with ⟨_, absent⟩ | ⟨y, x', rolled, there, stands⟩
    · rw [found] at absent
      cases absent
    · rw [found, Option.some.injEq] at there
      subst there
      refine ⟨⟨y, rolled, stands.isAlive.trans alive, stands.code.trans same, fun unchanged => ?_⟩,
        inside.kept⟩
      rw [restored.store.trie]
      exact stored (stands.unchanged unchanged)

/-! ## Deployed code -/

/-- Every account is alive; accounts only die when an execution is finalized. -/
def AllAlive (s : ArtaxState) : Prop := ∀ a x, s.account a = some x → x.isAlive = true

theorem AllAlive.revised {allowed : Address → Prop} (alive : s.AllAlive)
    (revised : ∀ a, s.Revised a t (allowed a)) : t.AllAlive := by
  intro a x found
  rcases revised a with ⟨same, _⟩ | ⟨y, cached, revised⟩
  · exact alive a x (same.symm.trans found)
  · rw [account_of_cached cached, Option.some.injEq] at found
    rw [← found, revised.alive]
    cases there : s.account a with
    | none => rfl
    | some z => exact alive a z there

theorem AllAlive.steps (alive : s.AllAlive) (coherent : s.Coherent) (steps : Steps m s t) :
    t.AllAlive := by
  induction steps with
  | refl => exact alive
  | tail _ step ih => exact (ih alive coherent).revised step.revised
  | revert earlier frame _ ih _ =>
    have restored := frame.restores (earlier.journaled coherent).coherent
    intro a y found
    rcases restored.account_cases a with ⟨absent, _⟩ | ⟨y', x, here, there, stands⟩
    · rw [found] at absent
      cases absent
    · rw [found, Option.some.injEq] at here
      subst here
      exact stands.isAlive.trans (ih alive coherent a x there)

theorem surviving_setNewCode (alive : s.AllAlive) (dirty : s.Dirty a) (kept : a ∉ s.deleteAddresses)
    (code : Bytes) :
    (s.setNewCode a code).Surviving a code := by
  obtain ⟨x, cached, changed⟩ := dirty
  have found := account_of_cached cached
  rw [setNewCode_of_cached cached]
  refine ⟨⟨x.setNewCode code, ?_, alive a x found, rfl, fun unchanged => ?_⟩, kept⟩
  · rw [account_log, account_putAccount, if_pos rfl]
  · exact absurd (changed.symm.trans unchanged) nofun

theorem Surviving.committed (surviving : s.Surviving a code) (nonempty : code ≠ [])
    (coherent : s.Coherent) (removeEmpty : Bool) :
    ∃ entry, (s.commit removeEmpty).trie a = some entry ∧ entry.code = code := by
  obtain ⟨x, found, alive, rfl, stored⟩ := surviving.account
  rw [trie_commit coherent, found]
  have full : x.isEmpty = false := by
    have some : x.code.isEmpty = false := by simpa using nonempty
    simp [Account.isEmpty, some]
  simp only [committedEntry, commitEntry, Option.map_some, full, Bool.and_false, Bool.false_eq_true,
    if_false]
  by_cases dirty : x.isDirty = true
  · rw [if_pos dirty, if_pos alive]
    exact ⟨_, rfl, rfl⟩
  · rw [if_neg dirty]
    exact stored (by simpa [Account.isDirty] using dirty)

/-! ## The end of a successful execution -/

section Execution

variable {ctx : ExecutionContext} {env : EnvInfo} {tx : ArtaxTransaction} {s : ArtaxState}

def outermost (ctx : ExecutionContext) (env : EnvInfo) (tx : ArtaxTransaction) (s : ArtaxState) :
    Option (Trace × Frame × ArtaxState) :=
  match Executive.execute ctx env tx (prepare ctx env tx s) with
  | none => none
  | some entered =>
    entered.frame.map fun f => ((ctx.vm env tx entered.state.account).trace, f, entered.state)

def deployment : Event → Option (Address × Bytes)
  | .deployed _ a code => some (a, code)
  | .reverted _ _ => none

def deployments (ctx : ExecutionContext) (env : EnvInfo) (tx : ArtaxTransaction) (s : ArtaxState) :
    List (Address × Bytes) :=
  match outermost ctx env tx s with
  | none => []
  | some (trace, f, entered) =>
    (history ctx.sealEngine env trace f entered).kept.filterMap deployment ++
      match run ctx.sealEngine env trace f entered {} with
      | some (.done _ _ output) => if tx.isCreation then [(f.myAddress, output)] else []
      | _ => []

def suicides (ctx : ExecutionContext) (env : EnvInfo) (tx : ArtaxTransaction) (s : ArtaxState) :
    List Address :=
  match outermost ctx env tx s with
  | none => []
  | some (trace, f, entered) =>
    match run ctx.sealEngine env trace f entered {} with
    | some (.done _ sub _) => sub.suicides
    | _ => []

/-- No contract is marked for deletion, or is sender or author, and code is only set where there is
none and no deletion is marked. -/
structure Spared (ctx : ExecutionContext) (env : EnvInfo) (tx : ArtaxTransaction)
    (s : ArtaxState) : Prop where
  stored : ∀ a entry, s.trie a = some entry → entry.code ≠ [] →
    a ∉ s.deleteAddresses ∧ a ≠ tx.sender ∧ a ≠ env.author
  frames : ∀ trace f entered, outermost ctx env tx s = some (trace, f, entered) →
    (history ctx.sealEngine env trace f entered).Allowed unmarked
  creation : ∀ trace f entered left sub output, tx.isCreation = true →
    outermost ctx env tx s = some (trace, f, entered) →
    run ctx.sealEngine env trace f entered {} = some (.done left sub output) →
    left.addressHasCode f.myAddress = false ∧ f.myAddress ∉ left.deleteAddresses

variable {a : Address} {code : Bytes} {ran : Executive.Ran} {entered : Executive.Entered}
  {f : Frame} {paid : ArtaxState}

theorem Surviving.congr {s t : ArtaxState} (surviving : s.Surviving a code)
    (account : t.account a = s.account a) (trie : t.trie = s.trie)
    (deletes : t.deleteAddresses = s.deleteAddresses) :
    t.Surviving a code := by
  refine surviving.retain trie (fun x found _ => ⟨x, account.trans found, .inl rfl⟩) ?_
  rw [deletes]
  exact surviving.kept

section

variable {s : ArtaxState} (surviving : s.Surviving a code)
include surviving

theorem Surviving.addBalance (nonempty : code ≠ []) (b : Address) (amount : U256) :
    (s.addBalance b amount).1.Surviving a code := by
  refine surviving.retain (store_addBalance s b amount).trie
    (fun x found same => (revised_addBalance s b amount a).retained found (same ▸ nonempty)) ?_
  rw [deleteAddresses_addBalance]
  exact surviving.kept

theorem Surviving.foldl_kill {addresses : List Address} (spared : a ∉ addresses) :
    (addresses.foldl kill s).Surviving a code :=
  surviving.congr (by rw [account_foldl_kill, if_neg spared])
    (tries_foldl_kill s addresses).trie (foldl_kill_rest addresses s).2

theorem Surviving.commitAll (nonempty : code ≠ []) (coherent : s.Coherent)
    (vins : Address → Option Vin) :
    ∃ entry, (({ s with cacheUTXO := vins } : ArtaxState).commitAll env).trie a = some entry ∧
      entry.code = code := by
  have same : ({ s with cacheUTXO := vins } : ArtaxState).commitUTXO.account a = s.account a :=
    account_congr rfl rfl rfl
  exact Surviving.committed (s := ({ s with cacheUTXO := vins } : ArtaxState).commitUTXO)
    (surviving.congr same rfl rfl) nonempty coherent _

end

theorem Surviving.concluded (coherent : ran.state.Coherent) (nonempty : code ≠ [])
    (surviving : ran.state.Surviving a code) (spared : a ∉ ran.sub.suicides) {savepoint : Nat}
    {state : ArtaxState} {res : ExecutionResult} {logs : List LogEntry} {made : CTransaction}
    (concluded : conclude ctx env tx .committed savepoint ran = .finished state res logs made) :
    ∃ entry, state.trie a = some entry ∧ entry.code = code := by
  have finalized : (Executive.finalizeState ctx env tx ran).Surviving a code :=
    ((surviving.addBalance nonempty _ _).addBalance nonempty _ _).foldl_kill spared
  have deleted := finalized.foldl_kill finalized.kept
  have coherent' := coherent_foldl_kill (coherent_foldl_kill (coherent_addBalance
    (coherent_addBalance coherent tx.sender (Executive.finalGas ctx tx ran * tx.gasPrice)) env.author
      ((tx.gas - Executive.finalGas ctx tx ran) * tx.gasPrice)) ran.sub.suicides)
    (Executive.finalizeState ctx env tx ran).deleteAddresses
  have ready : (deletedState ctx env tx ran).Coherent := coherent'
  obtain ⟨_, ⟨_, ended, _⟩ | ⟨_, ended, _⟩⟩ := conclude_finished concluded
  · rw [ended, recordVins, updateUTXO_eq]
    exact Surviving.commitAll (s := deletedState ctx env tx ran) deleted nonempty ready _
  · rw [ended]
    exact Surviving.commitAll (s := deletedState ctx env tx ran) deleted nonempty ready _

theorem outermost_of_performed
    (performed : Performed ctx env tx (prepare ctx env tx s) entered f ran) :
    outermost ctx env tx s =
      some ((ctx.vm env tx entered.state.account).trace, f, entered.state) := by
  simp [outermost, performed.executed, performed.frame]

theorem surviving_entered (idle : s.Idle) (spared : Spared ctx env tx s)
    (entry : Entry ctx env tx unmarked (prepare ctx env tx s) paid entered f)
    {stored : AccountRecord} (found : s.trie a = some stored) (nonempty : stored.code ≠ []) :
    entered.state.Surviving a stored.code := by
  obtain ⟨unlisted, notSender, notAuthor⟩ := spared.stored a stored found nonempty
  have store := entry.store_saved.trans (store_prepare s)
  have saved : (paid.incNonce tx.sender).Surviving a stored.code := by
    refine ⟨⟨Account.ofRecord stored, ?_, rfl, rfl, fun _ => ⟨stored, ?_, rfl⟩⟩, ?_⟩
    · rw [entry.account_saved notSender, account_prepare idle.newAddress, if_neg notSender,
        idle.account, found]
      rfl
    · rw [store.trie, found]
    · rw [entry.deleteAddresses_saved, mem_deleteAddresses_prepare]
      rintro (same | same | listed)
      · exact notAuthor same
      · exact notSender same
      · exact unlisted listed
  exact entry.steps.surviving entry.coherent nonempty saved

theorem allAlive_entered (idle : s.Idle) {m : Monitor}
    (entry : Entry ctx env tx m (prepare ctx env tx s) paid entered f) :
    entered.state.AllAlive := by
  have alive : s.AllAlive := by
    intro a x found
    rw [idle.account, Option.map_eq_some_iff] at found
    obtain ⟨stored, _, rfl⟩ := found
    rfl
  have prepared : (prepare ctx env tx s).AllAlive := alive.revised (revised_addBalance s tx.sender _)
  have start : (prepare ctx env tx s).Dirty tx.sender := dirty_prepare idle.newAddress
  have dirty := (revised_subBalance entry.taken tx.sender).kept.2 start
  exact ((prepared.revised (revised_subBalance entry.taken)).revised
    (revised_incNonce dirty.active)).steps entry.coherent entry.steps

/-- After a successful execution that spares contracts, every contract stored before or deployed by
it keeps its code, unless a suicide was executed on it. -/
theorem code_survives_execution (idle : s.Idle) (version : tx.version = .evmDefault)
    (spared : Spared ctx env tx s) {state : ArtaxState} {res : ExecutionResult}
    {logs : List LogEntry} {made : CTransaction}
    (finished : tryBlock ctx env tx .committed (prepare ctx env tx s) =
      some (.finished state res logs made)) (success : res.excepted = .none) :
    ∃ after, execute ctx env tx .committed s = some (after, ⟨reportAddress tx res, logs, made⟩) ∧
      ∀ a code, code ≠ [] →
        ((∃ entry, s.trie a = some entry ∧ entry.code = code) ∨
          (a, code) ∈ deployments ctx env tx s) →
        a ∉ suicides ctx env tx s → ∃ entry, after.trie a = some entry ∧ entry.code = code := by
  obtain ⟨entered, f, ran, performed, concluded⟩ := tryBlock_finished finished
  obtain ⟨rfl, _⟩ := conclude_finished concluded
  obtain ⟨left, output, ended, last⟩ := go_succeeded performed.went success
  have outer := outermost_of_performed performed
  obtain ⟨paid, entry⟩ := entry_of_execute (m := unmarked) (coherent_prepare idle.coherent)
    (dirty_prepare idle.newAddress) performed.valid (fun _ => trivial) performed.executed
    performed.frame
  have coherent := (entry.steps.journaled entry.coherent).coherent
  have allowed := spared.frames _ _ _ outer
  have stepped := run_stepped _ ⟨fun _ _ _ => trivial, coherent, entry.active, trivial,
    fun _ _ => trivial⟩ allowed ended
  have leftCoherent := (stepped.steps.journaled coherent).coherent
  have alive := allAlive_entered idle entry
  -- setting the code of a created contract is the last step of the virtual machine
  have final : Steps unmarked left ran.state := by
    rw [last]
    cases creates : tx.isCreation with
    | false => exact .refl left
    | true =>
      obtain ⟨noCode, unlisted⟩ := spared.creation _ _ _ _ _ _ creates outer ended
      have dirty := (stepped.steps.kept coherent _).2 (entry.created creates).1
      exact .single (.deploy dirty noCode unlisted output)
  refine ⟨_, execute_finished version finished, fun a code nonempty source notSuicide => ?_⟩
  have surviving : ran.state.Surviving a code := by
    rcases source with ⟨stored, found, rfl⟩ | deployed
    · have start := surviving_entered idle spared entry found nonempty
      exact (stepped.steps.trans final).surviving coherent nonempty start
    · rw [deployments, outer] at deployed
      simp only [ended] at deployed
      rcases List.mem_append.1 deployed with inner | outer
      · obtain ⟨event, member, same⟩ := List.mem_filterMap.1 inner
        cases event with
        | reverted saved left' => cases same
        | deployed left' b code' =>
          cases same
          obtain ⟨reached, dirty, rest⟩ := stepped.deployed left' a code member
          have unlisted := (allowed.kept _ member).2
          have here := (reached.journaled coherent).coherent
          have set := surviving_setNewCode (alive.steps coherent reached) dirty unlisted code
          exact (rest.trans final).surviving (journaled_setNewCode here dirty
            (allowed.kept _ member).1 code).coherent nonempty set
      · cases creates : tx.isCreation with
        | false =>
          rw [creates] at outer
          cases outer
        | true =>
          simp only [creates, if_true, List.mem_singleton, Prod.mk.injEq] at outer
          obtain ⟨rfl, rfl⟩ := outer
          rw [last, creates]
          obtain ⟨_, unlisted⟩ := spared.creation _ _ _ _ _ _ creates
            (outermost_of_performed performed) ended
          exact surviving_setNewCode (alive.steps coherent stepped.steps)
            ((stepped.steps.kept coherent _).2 (entry.created creates).1) unlisted code
  rw [suicides, outer] at notSuicide
  simp only [ended] at notSuicide
  have stored := surviving.concluded (final.journaled leftCoherent).coherent nonempty notSuicide
    concluded
  exact stored

end Execution

def oneContract : ArtaxState :=
  { trie := fun a => if a = 7 then some ⟨1#256, 0#256, fun _ => 0#256, [1]⟩ else none }

theorem idle_oneContract : oneContract.Idle :=
  ⟨nofun, fun _ => .inl rfl, nofun, nofun, rfl, rfl⟩

theorem spared_sampleCall : Spared (.sample (.stop [])) sampleEnv sampleCall oneContract := by
  refine ⟨fun a entry found _ => ?_, fun trace f entered outer => ?_, nofun⟩
  · have here : a = 7 := by
      by_contra other
      simp [oneContract, other] at found
    subst here
    decide
  · cases outer
    exact ⟨fun _ member => (by cases member), fun _ member => (by cases member)⟩

/-- A call that stops at once leaves the contract in place. -/
theorem called_contract_survives :
    ∃ after result, execute (.sample (.stop [])) sampleEnv sampleCall .committed oneContract =
        some (after, result) ∧ ∃ entry, after.trie 7 = some entry ∧ entry.code = [1] := by
  obtain ⟨after, executed, survives⟩ := code_survives_execution idle_oneContract rfl
    spared_sampleCall rfl rfl
  exact ⟨after, _, executed, survives 7 [1] (by simp) (.inl ⟨_, rfl, rfl⟩) List.not_mem_nil⟩

/-- If the author of the block is the address of the contract, the same call deletes it. -/
theorem author_contract_deleted :
    ∃ after result, execute (.sample (.stop [])) { sampleEnv with author := 7 } sampleCall .committed
        oneContract = some (after, result) ∧ result.execRes.excepted = .none ∧
      suicides (.sample (.stop [])) { sampleEnv with author := 7 } sampleCall oneContract = [] ∧
      (oneContract.trie 7).map AccountRecord.code = some [1] ∧ after.trie 7 = none :=
  ⟨_, _, rfl, rfl, rfl, rfl, rfl⟩

end Artax.ArtaxState
