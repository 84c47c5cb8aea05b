import Artax.Aal.ExecuteAlike
import Artax.Evm.History

/-!
# From a transaction into its frame and out again

An execution credits and charges the sender, counts its nonce, and proceeds from that savepoint by
steps of a frame; at the end gas is settled, and suicides and the delete set are carried out.
-/

namespace Artax

open Executive

namespace ArtaxState

/-- A state between executions: caches hold only what the tries hold, nothing is pending, and the
stored outputs are alive. -/
structure Idle (s : ArtaxState) : Prop where
  coherent : s.Coherent
  clean : ∀ a, s.Clean a
  vinsClean : ∀ a v, s.cacheUTXO a = some v → s.stateUTXO a = some v
  vinsAlive : s.VinsAlive
  newAddress : s.newAddress = 0
  transfers : s.transfers = []

namespace Idle

variable {s t : ArtaxState}

theorem account (idle : s.Idle) (a : Address) :
    s.account a = (s.trie a).map Account.ofRecord :=
  account_of_clean idle.coherent (idle.clean a)

theorem vin (idle : s.Idle) (a : Address) : s.vin a = s.stateUTXO a := by
  unfold ArtaxState.vin
  cases cached : s.cacheUTXO a with
  | none => rfl
  | some v => exact (idle.vinsClean a v cached).symm

/-- Between executions the tries and the delete set say all there is to a state. -/
theorem alike (left : t.Idle) (right : s.Idle) (tries : t.SameTries s)
    (deletes : t.deleteAddresses = s.deleteAddresses) : Alike t.changeLog s.changeLog t s where
  trie := tries.trie
  startNonce := tries.startNonce
  stateUTXO := tries.stateUTXO
  vin := fun a => by rw [left.vin, right.vin, tries.stateUTXO]
  newAddress := left.newAddress.trans right.newAddress.symm
  transfers := left.transfers.trans right.transfers.symm
  deleteAddresses := deletes
  coherent := left.coherent
  coherent' := right.coherent
  caches := fun a => .inr ⟨left.clean a, right.clean a⟩
  log := ⟨[], rfl, rfl, nofun⟩

theorem withDeletes (idle : s.Idle) (deletes : List Address) :
    Idle { s with deleteAddresses := deletes } :=
  ⟨idle.coherent, idle.clean, idle.vinsClean, idle.vinsAlive, idle.newAddress, idle.transfers⟩

end Idle

/-! ## Preparing -/

section Prepare

variable {ctx : ExecutionContext} {env : EnvInfo} {tx : ArtaxTransaction} {s : ArtaxState}

/-- Without a reserved address a credit goes where it is named. -/
theorem creditAddress_of_zero (zero : s.newAddress = 0) (a : Address) : s.creditAddress a = a := by
  unfold creditAddress
  simp [zero]

theorem coherent_addBalance (coherent : s.Coherent) (a : Address) (amount : U256) :
    (s.addBalance a amount).1.Coherent := (journaled_addBalance coherent a amount).coherent

theorem dirty_addBalance (s : ArtaxState) (a : Address) (amount : U256) :
    (s.addBalance a amount).1.Dirty (s.creditAddress a) :=
  ⟨s.credited a amount, by rw [cache_addBalance, Function.update_self],
    isUnchanged_credited s a amount⟩

/-- Before its execution a transaction changes no account but that of its sender. -/
theorem account_prepare (zero : s.newAddress = 0) (a : Address) :
    (prepare ctx env tx s).account a = if a = tx.sender
      then some (s.credited tx.sender (tx.value + tx.gas * tx.gasPrice)) else s.account a := by
  have credited := account_addBalance s tx.sender (tx.value + tx.gas * tx.gasPrice) a
  rw [creditAddress_of_zero zero] at credited
  exact credited

theorem coherent_prepare (coherent : s.Coherent) : (prepare ctx env tx s).Coherent :=
  coherent_addBalance coherent tx.sender _

theorem dirty_prepare (zero : s.newAddress = 0) : (prepare ctx env tx s).Dirty tx.sender := by
  have dirty := dirty_addBalance s tx.sender (tx.value + tx.gas * tx.gasPrice)
  rw [creditAddress_of_zero zero] at dirty
  exact dirty

theorem store_prepare (s : ArtaxState) : (prepare ctx env tx s).SameStore s :=
  have store := store_addBalance s tx.sender (tx.value + tx.gas * tx.gasPrice)
  ⟨store.trie, store.startNonce, store.stateUTXO, store.cacheUTXO⟩

theorem transfers_prepare (s : ArtaxState) : (prepare ctx env tx s).transfers = s.transfers :=
  transfers_addBalance s tx.sender _

/-- Sender and author are marked for deletion. -/
theorem mem_deleteAddresses_prepare (a : Address) :
    a ∈ (prepare ctx env tx s).deleteAddresses ↔
      a = env.author ∨ a = tx.sender ∨ a ∈ s.deleteAddresses := by
  simp [prepare, deleteAddresses_addBalance]

end Prepare

/-! ## Entering -/

section Enter

variable {ctx : ExecutionContext} {env : EnvInfo} {tx : ArtaxTransaction} {m : Monitor}

/-- A transaction entered its frame: the sender paid for the gas and its nonce was counted, the
savepoint was taken, and the rest are steps. -/
structure Entry (ctx : ExecutionContext) (env : EnvInfo) (tx : ArtaxTransaction) (m : Monitor)
    (s paid : ArtaxState) (entered : Executive.Entered) (f : Frame) : Prop where
  taken : s.subBalance tx.sender (tx.gas * tx.gasPrice) = some paid
  coherent : (paid.incNonce tx.sender).Coherent
  savepoint : entered.savepoint = (paid.incNonce tx.sender).savepoint
  steps : Steps m (paid.incNonce tx.sender) entered.state
  active : entered.state.Active f.myAddress
  created : tx.isCreation = true → entered.state.Dirty f.myAddress ∧
    openAccount ctx.sealEngine env tx.sender 0#256 paid =
      some ⟨entered.state, entered.savepoint, f.myAddress⟩
  called : tx.isCreation = false → f.myAddress = tx.receiveAddress ∧
    (paid.incNonce tx.sender).addressHasCode f.myAddress = true

variable {s paid : ArtaxState} {entered : Executive.Entered} {f : Frame} {a b : Address}

section

variable (coherent : (paid.incNonce tx.sender).Coherent)
  (taken : s.subBalance tx.sender (tx.gas * tx.gasPrice) = some paid)
  (frame : entered.frame = some f)
include coherent taken frame

/-- The entry of a creation. -/
theorem entry_create (zero : tx.value = 0#256) (creates : tx.isCreation)
    (opened : enterCreate ctx env tx paid = some entered) :
    Entry ctx env tx m s paid entered f := by
  unfold enterCreate at opened
  cases data : tx.data.isEmpty with
  | true =>
    rw [data] at opened
    split at opened
    · cases opened
    · cases opened
      cases frame
  | false =>
    rw [data, Bool.not_false, create_of_init, zero] at opened
    cases made : openAccount ctx.sealEngine env tx.sender 0#256 paid with
    | none =>
      rw [made] at opened
      cases opened
    | some creation =>
      rw [made] at opened
      cases opened
      cases frame
      obtain ⟨savepoint, steps, dirty⟩ := openAccount_steps (m := m) made
      refine ⟨taken, coherent, savepoint, steps, dirty.active, fun _ => ⟨dirty, made⟩, ?_⟩
      intro call
      rw [creates] at call
      cases call

/-- The entry of a call. -/
theorem entry_call (source : tx.value ≠ 0#256 → m.source tx.sender) (call : tx.isCreation = false)
    (opened : enterCall ctx env tx paid = some entered) : Entry ctx env tx m s paid entered f := by
  unfold enterCall at opened
  simp only [] at opened
  split at opened
  · cases opened
  · rename_i after ext called
    cases opened
    cases ext with
    | false => cases frame
    | true =>
      cases frame
      have steps := call_steps (m := m) source called
      have code := hasCode_of_call called
      refine ⟨taken, coherent, rfl, steps, ?_, ?_, fun _ => ⟨rfl, code⟩⟩
      · exact (steps.kept coherent _).1 (.of_hasCode code)
      · intro creates
        rw [call] at creates
        cases creates

end

/-- How `Executive::execute` enters a frame. -/
theorem entry_of_execute (coherent : s.Coherent) (dirty : s.Dirty tx.sender)
    (valid : ¬(tx.isCreation ∧ tx.value ≠ 0#256))
    (source : tx.value ≠ 0#256 → m.source tx.sender)
    (executed : Executive.execute ctx env tx s = some entered) (frame : entered.frame = some f) :
    ∃ paid, Entry ctx env tx m s paid entered f := by
  unfold Executive.execute at executed
  cases taken : s.subBalance tx.sender (tx.gas * tx.gasPrice) with
  | none =>
    rw [taken] at executed
    cases executed
  | some paid =>
    rw [taken] at executed
    have active := ((revised_subBalance taken tx.sender).kept.2 dirty).active
    have step := journaled_incNonce (journaled_subBalance coherent taken).coherent active
    refine ⟨paid, ?_⟩
    cases creates : tx.isCreation with
    | true =>
      simp only [creates, if_true] at executed
      have zero : tx.value = 0#256 := by
        by_contra nonzero
        exact valid ⟨creates, nonzero⟩
      exact entry_create step.coherent taken frame zero creates executed
    | false =>
      simp only [creates, Bool.false_eq_true, if_false] at executed
      exact entry_call step.coherent taken frame source creates executed

theorem account_subBalance_of_ne {t : ArtaxState} {value : U256}
    (taken : s.subBalance b value = some t) (other : a ≠ b) : t.account a = s.account a := by
  obtain ⟨_, rfl⟩ | ⟨_, x, found, _, rfl⟩ := subBalance_eq_some_iff.1 taken
  · rfl
  · rw [account_addBalance, creditAddress_of_some found, if_neg other]

theorem account_incNonce_of_ne (s : ArtaxState) (other : a ≠ b) :
    (s.incNonce b).account a = s.account a := by
  unfold incNonce
  split
  · rw [account_log, account_putAccount, if_neg other]
  · rw [account_createAccount, if_neg other]

section

variable (entry : Entry ctx env tx m s paid entered f)
include entry

/-- At the savepoint only the account of the sender has changed. -/
theorem Entry.account_saved (other : a ≠ tx.sender) :
    (paid.incNonce tx.sender).account a = s.account a :=
  (account_incNonce_of_ne paid other).trans (account_subBalance_of_ne entry.taken other)

/-- At the savepoint tries and outputs are as they were. -/
theorem Entry.store_saved :
    (paid.incNonce tx.sender).SameStore s := by
  have first : paid.SameStore s := by
    obtain ⟨_, rfl⟩ | ⟨_, _, _, _, rfl⟩ := subBalance_eq_some_iff.1 entry.taken
    · exact .refl _
    · exact store_addBalance s tx.sender _
  have second : (paid.incNonce tx.sender).SameStore paid := by
    unfold incNonce
    split <;> exact ⟨rfl, rfl, rfl, rfl⟩
  exact second.trans first

theorem Entry.deleteAddresses_saved :
    (paid.incNonce tx.sender).deleteAddresses = s.deleteAddresses :=
  (incNonce_rest paid tx.sender).2.2.trans (subBalance_rest entry.taken).2.2

theorem Entry.transfers_saved :
    (paid.incNonce tx.sender).transfers = s.transfers :=
  (incNonce_rest paid tx.sender).2.1.trans (subBalance_rest entry.taken).2.1

end

end Enter

/-! ## Recording -/

/-- Only `cacheUTXO` changes in `updateUTXO`. -/
theorem updateUTXO_eq (entries : List (Address × Vin)) (s : ArtaxState) :
    s.updateUTXO entries = { s with cacheUTXO := (s.updateUTXO entries).cacheUTXO } := by
  induction entries generalizing s with
  | nil => rfl
  | cons entry rest ih =>
    have head : s.updateVin entry = { s with cacheUTXO := (s.updateVin entry).cacheUTXO } := by
      unfold updateVin
      split <;> rfl
    have tail := ih (s.updateVin entry)
    rw [head] at tail
    rw [updateUTXO, List.foldl_cons, ← updateUTXO, head]
    exact tail

/-! ## Deleting -/

def deadVin (v : Vin) : Vin := { v with alive := false }

/-- A kill changes one account. -/
theorem account_kill (s : ArtaxState) (a b : Address) :
    (s.kill a).account b = if b = a then (s.account a).map Account.kill else s.account b := by
  have account : (s.killAccount a).account b =
      if b = a then (s.account a).map Account.kill else s.account b := by
    unfold killAccount
    cases found : s.account a with
    | some x => rw [account_putAccount, Option.map_some]
    | none =>
      rw [account_fetch]
      by_cases same : b = a
      · rw [if_pos same, same, found]
        rfl
      · rw [if_neg same]
  rw [← account]
  unfold kill killVin
  split <;> rfl

/-- A kill changes one output. -/
theorem vin_kill (s : ArtaxState) (a b : Address) :
    (s.kill a).vin b = if b = a then (s.vin a).map deadVin else s.vin b := by
  have kept (b : Address) : (s.killAccount a).vin b = s.vin b := by
    unfold killAccount
    split
    · rfl
    · have store := store_fetch s a
      rw [vin, vin, store.cacheUTXO, store.stateUTXO]
  unfold kill killVin
  rw [kept]
  cases found : s.vin a with
  | some v => rw [vin_putVin, kept, Option.map_some]; rfl
  | none =>
    rw [kept]
    by_cases same : b = a
    · rw [if_pos same, same, found]
      rfl
    · rw [if_neg same]

variable (addresses : List Address)

/-- What a kill maps at its address and leaves elsewhere, kills map at all their addresses. -/
theorem foldl_kill_eq {α : Type} (read : ArtaxState → Address → Option α) {dead : α → α}
    (once : ∀ s a b, read (s.kill a) b = if b = a then (read s a).map dead else read s b)
    (twice : dead ∘ dead = dead) (s : ArtaxState) (a : Address) :
    read (addresses.foldl kill s) a = if a ∈ addresses then (read s a).map dead else read s a := by
  induction addresses generalizing s with
  | nil => rfl
  | cons b rest ih =>
    rw [List.foldl_cons, ih, once]
    by_cases same : a = b
    · subst same
      by_cases later : a ∈ rest
      · simp [later, twice]
      · simp [later]
    · simp [same]

theorem account_foldl_kill (s : ArtaxState) (a : Address) :
    (addresses.foldl kill s).account a =
      if a ∈ addresses then (s.account a).map Account.kill else s.account a :=
  foldl_kill_eq addresses account account_kill rfl s a

theorem vin_foldl_kill (s : ArtaxState) (a : Address) :
    (addresses.foldl kill s).vin a =
      if a ∈ addresses then (s.vin a).map deadVin else s.vin a :=
  foldl_kill_eq addresses vin vin_kill rfl s a

theorem coherent_foldl_kill {s : ArtaxState} (coherent : s.Coherent) (addresses : List Address) :
    (addresses.foldl kill s).Coherent :=
  ((Alike.refl coherent).foldl_kill addresses).coherent

/-- What a kill leaves alone. -/
theorem kill_rest (s : ArtaxState) (a : Address) :
    (s.kill a).newAddress = s.newAddress ∧ (s.kill a).transfers = s.transfers ∧
      (s.kill a).deleteAddresses = s.deleteAddresses := by
  have account : (s.killAccount a).newAddress = s.newAddress ∧
      (s.killAccount a).transfers = s.transfers ∧
      (s.killAccount a).deleteAddresses = s.deleteAddresses := by
    unfold killAccount
    split
    · exact ⟨rfl, rfl, rfl⟩
    · exact fetch_rest s a
  unfold kill killVin
  split
  · exact account
  · exact account

theorem foldl_kill_rest (s : ArtaxState) :
    (addresses.foldl kill s).transfers = s.transfers ∧
      (addresses.foldl kill s).deleteAddresses = s.deleteAddresses := by
  induction addresses generalizing s with
  | nil => exact ⟨rfl, rfl⟩
  | cons a rest ih =>
    have tail := ih (s.kill a)
    have head := kill_rest s a
    exact ⟨tail.1.trans head.2.1, tail.2.trans head.2.2⟩

/-! ## The finalized state -/

section Finalized

variable {ctx : ExecutionContext} {env : EnvInfo} {tx : ArtaxTransaction} {ran : Executive.Ran}

/-- After the two payments of `Executive::finalize`. -/
def paidState (ctx : ExecutionContext) (env : EnvInfo) (tx : ArtaxTransaction)
    (ran : Executive.Ran) : ArtaxState :=
  ((ran.state.addBalance tx.sender (finalGas ctx tx ran * tx.gasPrice)).1.addBalance
    env.author ((tx.gas - finalGas ctx tx ran) * tx.gasPrice)).1

theorem finalizeState_eq : finalizeState ctx env tx ran =
    ran.sub.suicides.foldl kill (paidState ctx env tx ran) := rfl

theorem paidState_rest (ctx : ExecutionContext) (env : EnvInfo) (tx : ArtaxTransaction)
    (ran : Executive.Ran) : (paidState ctx env tx ran).transfers = ran.state.transfers ∧
    (paidState ctx env tx ran).deleteAddresses = ran.state.deleteAddresses ∧
    (paidState ctx env tx ran).SameStore ran.state := by
  unfold paidState
  rw [transfers_addBalance, transfers_addBalance, deleteAddresses_addBalance,
    deleteAddresses_addBalance]
  exact ⟨rfl, rfl, (store_addBalance _ _ _).trans (store_addBalance _ _ _)⟩

/-- Suicides and the delete set are killed alike. -/
theorem deletedState_eq : deletedState ctx env tx ran =
    (ran.sub.suicides ++ ran.state.deleteAddresses).foldl kill (paidState ctx env tx ran) := by
  have listed : (finalizeState ctx env tx ran).deleteAddresses =
      ran.state.deleteAddresses := (foldl_kill_rest _ _).2.trans (paidState_rest ctx env tx ran).2.1
  rw [deletedState, deleteAccounts, listed, finalizeState_eq, List.foldl_append]

theorem deletedState_rest (ctx : ExecutionContext) (env : EnvInfo) (tx : ArtaxTransaction)
    (ran : Executive.Ran) :
    (deletedState ctx env tx ran).transfers = ran.state.transfers ∧
    (deletedState ctx env tx ran).deleteAddresses = ran.state.deleteAddresses ∧
    (deletedState ctx env tx ran).SameTries ran.state := by
  have paid := paidState_rest ctx env tx ran
  rw [deletedState_eq]
  have killed := foldl_kill_rest (ran.sub.suicides ++ ran.state.deleteAddresses)
    (paidState ctx env tx ran)
  exact ⟨killed.1.trans paid.1, killed.2.trans paid.2.1,
    (tries_foldl_kill _ _).trans paid.2.2.tries⟩

theorem coherent_deletedState (coherent : ran.state.Coherent) :
    (deletedState ctx env tx ran).Coherent :=
  coherent_foldl_kill (coherent_foldl_kill (coherent_addBalance (coherent_addBalance coherent _ _)
    _ _) _) _

/-- The accounts after the deletions. -/
theorem account_deletedState (a : Address) : (deletedState ctx env tx ran).account a =
    if a ∈ ran.state.deleteAddresses ∨ a ∈ ran.sub.suicides
    then ((paidState ctx env tx ran).account a).map Account.kill
    else (paidState ctx env tx ran).account a := by
  rw [deletedState_eq, account_foldl_kill]
  simp only [List.mem_append, or_comm]

/-- The outputs after the deletions. -/
theorem vin_deletedState (a : Address) : (deletedState ctx env tx ran).vin a =
    if a ∈ ran.state.deleteAddresses ∨ a ∈ ran.sub.suicides
    then (ran.state.vin a).map deadVin else ran.state.vin a := by
  have store := (paidState_rest ctx env tx ran).2.2
  have kept : (paidState ctx env tx ran).vin a = ran.state.vin a := by
    rw [vin, vin, store.cacheUTXO, store.stateUTXO]
  rw [deletedState_eq, vin_foldl_kill, kept]
  simp only [List.mem_append, or_comm]

theorem account_addBalance_of_code {s : ArtaxState} {a b : Address} {amount : U256} {x : Account}
    (other : a ≠ b) (found : (s.addBalance b amount).1.account a = some x) (code : x.code ≠ []) :
    s.account a = some x := by
  rw [account_addBalance] at found
  split at found
  · rename_i same
    cases there : s.account b with
    | some y =>
      rw [creditAddress_of_some there] at same
      exact absurd same other
    | none =>
      cases found
      rw [credited, there] at code
      exact absurd rfl code
  · exact found

/-- Paying for gas gives no account code. -/
theorem account_paidState_of_code {a : Address} {x : Account} (notSender : a ≠ tx.sender)
    (notAuthor : a ≠ env.author) (found : (paidState ctx env tx ran).account a = some x)
    (code : x.code ≠ []) : ran.state.account a = some x :=
  account_addBalance_of_code notSender (account_addBalance_of_code notAuthor found code) code

end Finalized

end ArtaxState
end Artax
