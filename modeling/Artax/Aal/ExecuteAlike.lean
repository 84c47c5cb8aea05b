import Artax.Aal.Execute
import Artax.Evm.Lockstep

/-!
# Executions from states that cannot be told apart

The lockstep of runs carried through `execute`: from states that answer alike,
an execution has the same result and leaves the same two tries.
-/

namespace Artax
open CondensingTX ArtaxState

namespace ArtaxState

structure SameTries (t s : ArtaxState) : Prop where
  trie : t.trie = s.trie
  stateUTXO : t.stateUTXO = s.stateUTXO
  startNonce : t.accountStartNonce = s.accountStartNonce

theorem SameTries.trans {r s t : ArtaxState} (first : r.SameTries s) (second : s.SameTries t) :
    r.SameTries t :=
  ⟨first.trie.trans second.trie, first.stateUTXO.trans second.stateUTXO,
    first.startNonce.trans second.startNonce⟩

theorem SameStore.tries {t s : ArtaxState} (store : t.SameStore s) : t.SameTries s :=
  ⟨store.trie, store.stateUTXO, store.startNonce⟩

/-- Stored outputs are alive: dead ones are removed when they are committed. -/
def VinsAlive (s : ArtaxState) : Prop := ∀ a v, s.stateUTXO a = some v → v.alive = true

variable {base base' : List Change} {t s : ArtaxState}

/-! ## Deleting and recording -/

section

variable (alike : Alike base base' t s)
include alike

theorem Alike.putAccount (b : Address) (x : Account) :
    Alike base base' (t.putAccount b x) (s.putAccount b x) :=
  (alike.update b (some x) [] nofun alike.newAddress alike.transfers
    alike.deleteAddresses alike.coherent alike.coherent').alike

theorem Alike.fetch (a : Address) :
    Alike base base' (t.fetch a) (s.fetch a) := by
  rw [fetch_eq alike.coherent, fetch_eq alike.coherent', alike.account]
  exact (alike.update a (s.account a) [] nofun alike.newAddress alike.transfers
    alike.deleteAddresses (missing_fetch alike.coherent a) (missing_fetch alike.coherent' a)).alike

theorem Alike.putVin (a : Address) (v : Vin) :
    Alike base base' (t.putVin a v) (s.putVin a v) :=
  ⟨alike.trie, alike.startNonce, alike.stateUTXO,
    fun b => by rw [vin_putVin, vin_putVin, alike.vin], alike.newAddress, alike.transfers,
    alike.deleteAddresses, alike.coherent, alike.coherent', alike.caches, alike.log⟩

theorem Alike.kill (a : Address) :
    Alike base base' (t.kill a) (s.kill a) := by
  have account : Alike base base' (t.killAccount a) (s.killAccount a) := by
    unfold ArtaxState.killAccount
    rw [alike.account]
    cases s.account a with
    | none => exact alike.fetch a
    | some x => exact alike.putAccount a x.kill
  unfold ArtaxState.kill ArtaxState.killVin
  rw [account.vin]
  cases (s.killAccount a).vin a with
  | none => exact account
  | some v => exact account.putVin a _

theorem Alike.foldl_kill (addresses : List Address) :
    Alike base base' (addresses.foldl ArtaxState.kill t) (addresses.foldl ArtaxState.kill s) := by
  induction addresses generalizing t s with
  | nil => exact alike
  | cons a rest ih => exact ih (alike.kill a)

theorem Alike.deleteAccounts :
    Alike base base' (t.deleteAccounts t.deleteAddresses) (s.deleteAccounts s.deleteAddresses) := by
  rw [alike.deleteAddresses]
  exact alike.foldl_kill s.deleteAddresses

theorem Alike.updateUTXO (entries : List (Address × Vin)) :
    Alike base base' (t.updateUTXO entries) (s.updateUTXO entries) := by
  induction entries generalizing t s with
  | nil => exact alike
  | cons entry rest ih =>
    apply ih
    unfold updateVin
    rw [alike.vin]
    split
    · exact alike.putVin entry.1 entry.2
    · exact alike

end

theorem tries_kill (s : ArtaxState) (a : Address) : (s.kill a).SameTries s := by
  have account : (s.killAccount a).SameTries s := by
    unfold killAccount
    split
    · exact ⟨rfl, rfl, rfl⟩
    · exact (store_fetch s a).tries
  unfold kill killVin
  split
  · exact ⟨account.trie, account.stateUTXO, account.startNonce⟩
  · exact account

theorem tries_foldl_kill (s : ArtaxState) (addresses : List Address) :
    (addresses.foldl kill s).SameTries s := by
  induction addresses generalizing s with
  | nil => exact ⟨rfl, rfl, rfl⟩
  | cons a rest ih => exact (ih (s.kill a)).trans (tries_kill s a)

theorem tries_updateUTXO (s : ArtaxState) (entries : List (Address × Vin)) :
    (s.updateUTXO entries).SameTries s := by
  induction entries generalizing s with
  | nil => exact ⟨rfl, rfl, rfl⟩
  | cons entry rest ih =>
    have head : (s.updateVin entry).SameTries s := by
      unfold updateVin
      split <;> exact ⟨rfl, rfl, rfl⟩
    exact (ih (s.updateVin entry)).trans head

/-! ## Committing -/

def committedEntry (removeEmpty : Bool) (account : Option Account)
    (stored : Option AccountRecord) : Option AccountRecord :=
  commitEntry (account.map fun x =>
    if removeEmpty && (x.isDirty && x.isEmpty) then x.kill else x) stored

theorem trie_commit (coherent : s.Coherent) (removeEmpty : Bool) (a : Address) :
    (s.commit removeEmpty).trie a = committedEntry removeEmpty (s.account a) (s.trie a) := by
  have entry : (s.commit removeEmpty).trie a = commitEntry ((s.cache a).map fun x =>
      if removeEmpty && (x.isDirty && x.isEmpty) then x.kill else x) (s.trie a) := by
    unfold commit removeEmptyAccounts
    cases removeEmpty with
    | false => simp
    | true => simp
  rw [entry, committedEntry]
  cases cached : s.cache a with
  | some x => rw [account_of_cached cached]
  | none =>
    rw [account_of_uncached coherent cached]
    cases s.trie a with
    | none => rfl
    | some stored =>
      simp [commitEntry, Account.isDirty]

theorem stateUTXO_commitUTXO (alive : s.VinsAlive) (a : Address) :
    s.commitUTXO.stateUTXO a = (s.vin a).filter (·.alive) := by
  unfold commitUTXO vin
  simp only []
  cases s.cacheUTXO a with
  | some v => by_cases living : v.alive = true <;> simp [Option.filter, living]
  | none =>
    cases stored : s.stateUTXO a with
    | none => rfl
    | some v => simp [Option.filter, alive a v stored]

theorem commitAll_eq (s : ArtaxState) (env : EnvInfo) : s.commitAll env =
    { s.commitUTXO with trie := (s.commitAll env).trie, cache := fun _ => none, changeLog := [] } := by
  unfold commitAll commit
  split <;> rfl

theorem trie_commitAll {s : ArtaxState} (coherent : s.Coherent) (env : EnvInfo) (a : Address) :
    (s.commitAll env).trie a =
      committedEntry (decide (eip158ForkBlock ≤ env.number)) (s.account a) (s.trie a) := by
  have view : s.commitUTXO.account a = s.account a := account_congr rfl rfl rfl
  rw [commitAll, trie_commit (s := s.commitUTXO) coherent, view]
  rfl

theorem stateUTXO_commitAll {s : ArtaxState} (alive : s.VinsAlive) (env : EnvInfo) (a : Address) :
    (s.commitAll env).stateUTXO a = (s.vin a).filter (·.alive) := by
  rw [commitAll_eq]
  exact stateUTXO_commitUTXO alive a

theorem Alike.commitAll (alike : Alike base base' t s) (alive : s.VinsAlive) (env : EnvInfo) :
    (t.commitAll env).SameTries (s.commitAll env) := by
  have alive' : t.VinsAlive := fun a v stored => alive a v (alike.stateUTXO ▸ stored)
  refine ⟨funext fun a => ?_, funext fun a => ?_, ?_⟩
  · rw [trie_commitAll alike.coherent, trie_commitAll alike.coherent', alike.account, alike.trie]
  · rw [stateUTXO_commitAll alive', stateUTXO_commitAll alive, alike.vin]
  · rw [commitAll_eq, commitAll_eq s]
    exact alike.startNonce

/-- States with the same outputs and the same delete set. -/
structure SameOutputs (t s : ArtaxState) : Prop where
  vin : ∀ a, t.vin a = s.vin a
  deletes : t.deleteAddresses = s.deleteAddresses

theorem Alike.outputs_commitAll (alike : Alike base base' t s) (alive : s.VinsAlive) (env : EnvInfo) :
    (t.commitAll env).SameOutputs (s.commitAll env) := by
  have stored := congrFun (alike.commitAll alive env).stateUTXO
  rw [commitAll_eq, commitAll_eq s] at stored ⊢
  exact ⟨stored, alike.deleteAddresses⟩

/-! ## The parts of an execution -/

variable {ctx : ExecutionContext} {env : EnvInfo} {tx : ArtaxTransaction}

theorem Alike.prepare (alike : Alike base base' t s) (ctx : ExecutionContext) (env : EnvInfo)
    (tx : ArtaxTransaction) :
    Lockstep base base' t s (prepare ctx env tx t) (prepare ctx env tx s) := by
  have credited := alike.addBalance tx.sender (tx.value + tx.gas * tx.gasPrice)
  have now := credited.alike
  refine ⟨⟨now.trie, now.startNonce, now.stateUTXO, now.vin, rfl, now.transfers, ?_, now.coherent,
    now.coherent', now.caches, now.log⟩, credited.keeps, ?_, ?_⟩
  · simp only [ArtaxState.prepare, now.deleteAddresses]
  · exact ⟨credited.store.trie, credited.store.startNonce, credited.store.stateUTXO,
      credited.store.cacheUTXO⟩
  · exact ⟨credited.store'.trie, credited.store'.startNonce, credited.store'.stateUTXO,
      credited.store'.cacheUTXO⟩

theorem Alike.initialise (alike : Alike base base' t s) :
    Executive.initialise ctx env tx t = Executive.initialise ctx env tx s := by
  unfold Executive.initialise
  rw [alike.getNonce, alike.balance]

structure EnteredLockstep (tx : ArtaxTransaction) (base base' : List Change) (t s : ArtaxState)
    (x y : Executive.Entered) : Prop where
  frame : x.frame = y.frame
  newAddress : x.newAddress = y.newAddress
  states : Lockstep base base' t s x.state y.state
  savepoint : ∃ k, x.savepoint = k + base.length ∧ y.savepoint = k + base'.length
  agree : tx.isCreation = true → ∀ f, x.frame = some f →
    x.state.cache f.myAddress = y.state.cache f.myAddress

theorem EnteredLockstep.after {t₁ s₁ : ArtaxState} (first : Lockstep base base' t s t₁ s₁) :
    ∀ {x y : Option Executive.Entered},
      Option.Rel (EnteredLockstep tx base base' t₁ s₁) x y →
      Option.Rel (EnteredLockstep tx base base' t s) x y
  | _, _, .none => .none
  | _, _, .some step => .some ⟨step.frame, step.newAddress, first.trans step.states,
      step.savepoint, step.agree⟩

section

variable (alike : Alike base base' t s)
include alike

theorem Alike.enterCreate :
    Option.Rel (EnteredLockstep tx base base' t s)
      (Executive.enterCreate ctx env tx t) (Executive.enterCreate ctx env tx s) := by
  have opened := alike.openAccount ctx.sealEngine env tx.sender tx.value
  unfold Executive.enterCreate Executive.create
  refine opened.casesOn (fun {made made'} opening => ?_) .none
  obtain ⟨same, enter, agree, heights⟩ := opening
  simp only [Bool.not_not]
  rw [← same, enter.alike.addressHasCode]
  split
  · rename_i overwritten
    have empty := (Bool.and_eq_true_iff.1 overwritten).1
    refine .some ⟨?_, rfl, enter.trans (enter.alike.setNewCode _ [] agree), heights, ?_⟩
    · simp only [empty, if_true]
    · intro _ f entered
      simp only [empty, if_true] at entered
      cases entered
  · refine .some ⟨?_, same, enter, heights, ?_⟩
    · simp only [same]
    · intro _ f entered
      split at entered
      · cases entered
      · cases entered
        exact agree

theorem Alike.enterCall (call : tx.isCreation = false) :
    Option.Rel (EnteredLockstep tx base base' t s)
      (Executive.enterCall ctx env tx t) (Executive.enterCall ctx env tx s) := by
  have counted := alike.incNonce tx.sender
  have called := counted.alike.call ctx.sealEngine env
    ⟨tx.sender, tx.receiveAddress, tx.receiveAddress, tx.value⟩ (ctx.gasCovers tx)
  unfold Executive.enterCall
  simp only []
  refine called.casesOn (fun {x y} entry => ?_) .none
  obtain ⟨same, enter⟩ := entry
  refine .some ⟨by simp only [same], rfl, counted.trans enter, counted.alike.savepoint, ?_⟩
  intro creates
  rw [call] at creates
  cases creates

theorem Alike.enter (ctx : ExecutionContext) (env : EnvInfo) (tx : ArtaxTransaction) :
    Option.Rel (EnteredLockstep tx base base' t s)
      (Executive.execute ctx env tx t) (Executive.execute ctx env tx s) := by
  unfold Executive.execute
  refine (alike.subBalance tx.sender (tx.gas * tx.gasPrice)).casesOn (fun step => ?_) .none
  cases creates : tx.isCreation with
  | true => exact EnteredLockstep.after step step.alike.enterCreate
  | false => exact EnteredLockstep.after step (step.alike.enterCall creates)

end

structure RanAlike (base base' : List Change) (t s : ArtaxState) (x y : Executive.Ran) : Prop where
  same : y = { x with state := y.state }
  states : Lockstep base base' t s x.state y.state

theorem Alike.go (ctx : ExecutionContext) (env : EnvInfo) {x y : Executive.Entered} (entered : EnteredLockstep tx base base' t s x y)
    {f : Frame} (frame : x.frame = some f) :
    Option.Rel (RanAlike base base' t s) (Executive.go ctx env tx x f)
      (Executive.go ctx env tx y f) := by
  obtain ⟨k, height, height'⟩ := entered.savepoint
  have enter := entered.states
  unfold Executive.go
  simp only []
  rw [enter.alike.accounts]
  have runs := run_lockstep ctx.sealEngine env
    (ctx.vm env tx y.state.account).trace f {} enter.alike
  refine runs.casesOn (fun {left right} ends => ?_) .none
  match left, right, ends with
  | .threw _ _, .threw _ _, ⟨step, rfl⟩ =>
    exact .some ⟨rfl, (enter.trans step).trans (step.alike.rollback height height')⟩
  | .done _ _ output, .done _ _ _, ⟨step, rfl, rfl⟩ =>
    refine .some ⟨by simp only [entered.newAddress], enter.trans ?_⟩
    cases creates : tx.isCreation with
    | false => exact step
    | true =>
      have agree := step.keeps _ (entered.agree creates f frame)
      exact step.trans (step.alike.setNewCode f.myAddress output agree)

theorem Alike.finalizeState (ctx : ExecutionContext) (env : EnvInfo) (tx : ArtaxTransaction)
    {x y : Executive.Ran} (ran : RanAlike base base' t s x y) :
    Alike base base' (Executive.finalizeState ctx env tx x) (Executive.finalizeState ctx env tx y) ∧
      (Executive.finalizeState ctx env tx x).SameTries t := by
  have gas : Executive.finalGas ctx tx y = Executive.finalGas ctx tx x := by
    rw [ran.same]
    rfl
  have suicides : y.sub.suicides = x.sub.suicides := by rw [ran.same]
  have sender := ran.states.alike.addBalance tx.sender (Executive.finalGas ctx tx x * tx.gasPrice)
  have author := sender.alike.addBalance env.author
    ((tx.gas - Executive.finalGas ctx tx x) * tx.gasPrice)
  unfold Executive.finalizeState
  simp only [gas, suicides]
  refine ⟨author.alike.foldl_kill x.sub.suicides, ?_⟩
  have store := (ran.states.trans (sender.trans author)).store
  exact (tries_foldl_kill _ x.sub.suicides).trans store.tries

/-- Two ends of the try block that differ in caches and logs alone. -/
def AttemptAlike (t : ArtaxState) : Attempt → Attempt → Prop
  | .finished x res logs made, .finished y res' logs' made' =>
    x.SameTries y ∧ res = res' ∧ logs = logs' ∧ made = made'
  | .thrown x e limit logs, .thrown y e' limit' logs' =>
    (∃ base base', Alike base base' x y) ∧ x.SameTries t ∧ e = e' ∧ limit = limit' ∧ logs = logs'
  | _, _ => False

/-- If both ends are regular, they also agree on outputs and delete sets. -/
def Attempt.Agree : Attempt → Attempt → Prop
  | .finished x .., .finished y .. => x.SameOutputs y
  | _, _ => True

theorem Alike.condensingInput (alike : Alike base base' t s) :
    condensingInput ctx tx t = condensingInput ctx tx s := by
  unfold ArtaxState.condensingInput
  rw [funext alike.vin, alike.accounts, alike.transfers, alike.deleteAddresses]

theorem Alike.settle (alike : Alike base base' t s) (alive : s.VinsAlive) {n n' k : Nat}
    (height : n = k + base.length) (height' : n' = k + base'.length) (res : ExecutionResult)
    (logs : List LogEntry) :
    AttemptAlike t (settle ctx env tx n res logs t) (settle ctx env tx n' res logs s) ∧
      (settle ctx env tx n res logs t).Agree (settle ctx env tx n' res logs s) := by
  unfold ArtaxState.settle recordVins
  rw [alike.condensingInput]
  simp only []
  split
  · split
    · exact ⟨⟨⟨base, base', (alike.rollback height height').alike⟩, ⟨rfl, rfl, rfl⟩, rfl, rfl, rfl⟩,
        trivial⟩
    · generalize createVin (ArtaxState.condensingInput ctx tx s) _ _ = entries
      have recorded := alike.updateUTXO entries
      have kept := tries_updateUTXO s entries
      have alive' := fun a v stored => alive a v (kept.stateUTXO ▸ stored)
      exact ⟨⟨recorded.commitAll alive' env, rfl, rfl, rfl⟩, recorded.outputs_commitAll alive' env⟩
  · exact ⟨⟨alike.commitAll alive env, rfl, rfl, rfl⟩, alike.outputs_commitAll alive env⟩

theorem AttemptAlike.congr {r t : ArtaxState} (tries : t.SameTries r) :
    ∀ {x y : Attempt}, AttemptAlike t x y → AttemptAlike r x y
  | .finished .., .finished .., same => same
  | .thrown .., .thrown .., ⟨alike, kept, same⟩ =>
    ⟨alike, kept.trans tries, same⟩

theorem Alike.conclude {x y : Executive.Ran} (ran : RanAlike base base' t s x y)
    (alive : s.VinsAlive) {n n' k : Nat} (height : n = k + base.length)
    (height' : n' = k + base'.length) (p : Permanence) :
    AttemptAlike t (conclude ctx env tx p n x) (conclude ctx env tx p n' y) ∧
      (conclude ctx env tx p n x).Agree (conclude ctx env tx p n' y) := by
  have result : Executive.finalizeResult ctx tx y = Executive.finalizeResult ctx tx x := by
    rw [ran.same]
    rfl
  have logs : y.sub.logs = x.sub.logs := by rw [ran.same]
  obtain ⟨finalized, tries⟩ := Alike.finalizeState ctx env tx ran
  unfold ArtaxState.conclude ArtaxState.deletedState
  simp only [result, logs]
  cases p with
  | reverted =>
    exact ⟨⟨⟨finalized.trie, finalized.stateUTXO, finalized.startNonce⟩, rfl, rfl, rfl⟩,
      congrFun finalized.stateUTXO, finalized.deleteAddresses⟩
  | committed =>
    have deleted := finalized.deleteAccounts
    have kept := tries_foldl_kill (Executive.finalizeState ctx env tx x)
      (Executive.finalizeState ctx env tx x).deleteAddresses
    have tries' : SameTries ((Executive.finalizeState ctx env tx x).deleteAccounts
        (Executive.finalizeState ctx env tx x).deleteAddresses) t := kept.trans tries
    refine (deleted.settle (fun a v stored => alive a v ?_) height height' _ _).imp_left (.congr tries')
    rw [← ran.states.store'.stateUTXO, ← ran.states.alike.stateUTXO, ran.states.store.stateUTXO,
      ← tries'.stateUTXO, deleted.stateUTXO]
    exact stored

theorem Alike.tryBlock (alike : Alike base base' t s) (ctx : ExecutionContext) (env : EnvInfo)
    (tx : ArtaxTransaction) (alive : s.VinsAlive) (p : Permanence) :
    Option.Rel (fun x y => AttemptAlike t x y ∧ x.Agree y) (tryBlock ctx env tx p t)
      (tryBlock ctx env tx p s) := by
  have here : AttemptAlike t (.thrown t .none false []) (.thrown s .none false []) :=
    ⟨⟨base, base', alike⟩, ⟨rfl, rfl, rfl⟩, rfl, rfl, rfl⟩
  unfold ArtaxState.tryBlock
  rw [alike.initialise]
  split
  · exact .some ⟨⟨here.1, here.2.1, rfl, rfl, rfl⟩, trivial⟩
  · cases Executive.initialise ctx env tx s with
    | some e => exact .some ⟨⟨here.1, here.2.1, rfl, rfl, rfl⟩, trivial⟩
    | none =>
      refine (alike.enter ctx env tx).casesOn (fun {x y} entered => ?_)
        (.some ⟨⟨here.1, here.2.1, rfl, rfl, rfl⟩, trivial⟩)
      obtain ⟨k, height, height'⟩ := entered.savepoint
      simp only []
      rw [← entered.frame]
      cases frame : x.frame with
      | none =>
        have back := entered.states.alike.rollback height height'
        have store := (entered.states.trans back).store
        exact .some ⟨⟨⟨base, base', back.alike⟩, store.tries, rfl, rfl, rfl⟩, trivial⟩
      | some f =>
        simp only []
        refine (Alike.go ctx env entered frame).casesOn (fun ran => ?_) .none
        exact .some (Alike.conclude ran alive height height' p)

theorem Alike.executes (alike : Alike base base' t s) (alive : s.VinsAlive) (ctx : ExecutionContext)
    (env : EnvInfo) (tx : ArtaxTransaction) (p : Permanence) :
    Option.Rel (fun x y => (x.2 = y.2 ∧ x.1.SameTries y.1) ∧ x.1.SameOutputs y.1)
      (execute ctx env tx p t) (execute ctx env tx p s) := by
  have prepared := alike.prepare ctx env tx
  have ends := prepared.alike.tryBlock ctx env tx
    (fun a v stored => alive a v (prepared.store'.stateUTXO ▸ stored)) p
  unfold execute
  split
  · exact .none
  · refine ends.casesOn (fun {left right} same => ?_) .none
    match left, right, same with
    | .finished .., .finished .., ⟨⟨tries, rfl, rfl, rfl⟩, outputs⟩ =>
      exact .some ⟨⟨rfl, ⟨tries.trie, tries.stateUTXO, tries.startNonce⟩⟩, outputs.vin, outputs.deletes⟩
    | .thrown x e limit logs, .thrown y .., ⟨⟨⟨_, _, alike⟩, _, rfl, rfl, rfl⟩, _⟩ =>
      refine .some ?_
      unfold catchBlock
      split
      · have deleted := alike.deleteAccounts
        refine ⟨⟨rfl, funext fun a => ?_, deleted.stateUTXO, deleted.startNonce⟩, deleted.vin,
          deleted.deleteAddresses⟩
        · change (commit _ true).trie a = (commit _ true).trie a
          rw [trie_commit deleted.coherent, trie_commit deleted.coherent', deleted.account]
          exact congrArg _ (congrFun deleted.trie a)
      · exact ⟨⟨rfl, alike.trie, alike.stateUTXO, alike.startNonce⟩,
          congrFun alike.stateUTXO, alike.deleteAddresses⟩

end ArtaxState
end Artax
