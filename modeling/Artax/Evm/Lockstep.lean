import Artax.Evm.Operations

/-!
# States that cannot be told apart

Contract states with the same tries can differ in what they have cached and in the bottom of their
change logs. Every operation, rollback and run goes in lockstep from them, with the same answers,
entries logged and accounts written.
-/

namespace Artax

open List Executive Function

namespace ArtaxState

/-- The cache holds nothing for an address but what the trie has. -/
def Clean (s : ArtaxState) (a : Address) : Prop :=
  s.cache a = none ∨ s.cache a = (s.trie a).map Account.ofRecord

/-- Two states that answer alike, over change logs that grow on different bases. -/
structure Alike (base base' : List Change) (t s : ArtaxState) : Prop where
  trie : t.trie = s.trie
  startNonce : t.accountStartNonce = s.accountStartNonce
  stateUTXO : t.stateUTXO = s.stateUTXO
  vin : ∀ a, t.vin a = s.vin a
  newAddress : t.newAddress = s.newAddress
  transfers : t.transfers = s.transfers
  deleteAddresses : t.deleteAddresses = s.deleteAddresses
  coherent : t.Coherent
  coherent' : s.Coherent
  caches : ∀ a, t.cache a = s.cache a ∨ (t.Clean a ∧ s.Clean a)
  log : ∃ entries, t.changeLog = entries ++ base ∧ s.changeLog = entries ++ base' ∧
    ∀ e ∈ entries, t.cache e.address = s.cache e.address

/-- Two states moved to two states that are alike, over the same stores, and that agree in the
cache wherever the first two did. -/
structure Lockstep (base base' : List Change) (t s t' s' : ArtaxState) : Prop where
  alike : Alike base base' t' s'
  keeps : ∀ a, t.cache a = s.cache a → t'.cache a = s'.cache a
  store : t'.SameStore t
  store' : s'.SameStore s

variable {base base' : List Change} {t s : ArtaxState}

theorem Lockstep.refl (alike : Alike base base' t s) : Lockstep base base' t s t s :=
  ⟨alike, fun _ => id, .refl t, .refl s⟩

variable {t₁ s₁ : ArtaxState} {a : Address} {cache cache' : Address → Option Account}
  {rest inner : Trace}

theorem Lockstep.trans {t₂ s₂ : ArtaxState} (first : Lockstep base base' t s t₁ s₁)
    (second : Lockstep base base' t₁ s₁ t₂ s₂) : Lockstep base base' t s t₂ s₂ :=
  ⟨second.alike, fun a agree => second.keeps a (first.keeps a agree),
    second.store.trans first.store, second.store'.trans first.store'⟩

theorem account_of_clean (coherent : s.Coherent) (clean : s.Clean a) :
    s.account a = (s.trie a).map Account.ofRecord := by
  cases cached : s.cache a with
  | none => exact account_of_uncached coherent cached
  | some x =>
    rcases clean with uncached | same
    · rw [cached] at uncached
      cases uncached
    · rw [account_of_cached cached, ← same, cached]

section

variable (alike : Alike base base' t s)
include alike

theorem Alike.account (a : Address) :
    t.account a = s.account a := by
  rcases alike.caches a with agree | ⟨clean, clean'⟩
  · cases cached : s.cache a with
    | some x => rw [account_of_cached cached, account_of_cached (agree.trans cached)]
    | none =>
      rw [account_of_uncached alike.coherent (agree.trans cached),
        account_of_uncached alike.coherent' cached, alike.trie]
  · rw [account_of_clean alike.coherent clean, account_of_clean alike.coherent' clean', alike.trie]

theorem Alike.accounts : t.account = s.account :=
  funext alike.account

theorem Alike.balance (a : Address) :
    t.balance a = s.balance a := by
  rw [ArtaxState.balance, ArtaxState.balance, alike.account]

theorem Alike.getNonce (a : Address) :
    t.getNonce a = s.getNonce a := by
  rw [ArtaxState.getNonce, ArtaxState.getNonce, alike.account, alike.startNonce]

theorem Alike.addressInUse (a : Address) :
    t.addressInUse a = s.addressInUse a := by
  rw [ArtaxState.addressInUse, ArtaxState.addressInUse, alike.account]

theorem Alike.addressHasCode (a : Address) :
    t.addressHasCode a = s.addressHasCode a := by
  rw [ArtaxState.addressHasCode, ArtaxState.addressHasCode, alike.account]

theorem Alike.storage (a : Address) (key : U256) :
    t.storage a key = s.storage a key := by
  rw [ArtaxState.storage, ArtaxState.storage, alike.account]

theorem Alike.savepoint :
    ∃ k, t.savepoint = k + base.length ∧ s.savepoint = k + base'.length := by
  obtain ⟨entries, log, log', _⟩ := alike.log
  refine ⟨entries.length, ?_, ?_⟩
  · rw [ArtaxState.savepoint, log, length_append]
  · rw [ArtaxState.savepoint, log', length_append]

end

/-! ## Writing -/

/-- The general shape of an operation: one cache entry is written, and what is logged is about
that address. -/
theorem Alike.update (alike : Alike base base' t s) (b : Address) (x : Option Account)
    (entries : List Change) (about : ∀ e ∈ entries, e.address = b)
    {newAddress newAddress' : Address} (next : newAddress = newAddress')
    {transfers transfers' : List TransferInfo} (recorded : transfers = transfers')
    {deletes deletes' : List Address} (deleted : deletes = deletes')
    {missing missing' : Address → Bool} (coherent : ∀ a, missing a → t.trie a = none)
    (coherent' : ∀ a, missing' a → s.trie a = none) :
    Lockstep base base' t s
      { t with cache := Function.update t.cache b x, nonExisting := missing,
               changeLog := entries ++ t.changeLog, newAddress := newAddress,
               transfers := transfers, deleteAddresses := deletes }
      { s with cache := Function.update s.cache b x, nonExisting := missing',
               changeLog := entries ++ s.changeLog, newAddress := newAddress',
               transfers := transfers', deleteAddresses := deletes' } := by
  have keeps : ∀ a, t.cache a = s.cache a →
      Function.update t.cache b x a = Function.update s.cache b x a := by
    intro a agree
    by_cases same : a = b
    · rw [same, Function.update_self, Function.update_self]
    · rw [Function.update_of_ne same, Function.update_of_ne same, agree]
  refine ⟨⟨alike.trie, alike.startNonce, alike.stateUTXO, alike.vin, next, recorded, deleted,
    coherent, coherent', fun a => ?_, ?_⟩, keeps, ⟨rfl, rfl, rfl, rfl⟩, ⟨rfl, rfl, rfl, rfl⟩⟩
  · by_cases same : a = b
    · left
      simp only [same, Function.update_self]
    · rcases alike.caches a with agree | ⟨clean, clean'⟩
      · exact .inl (keeps a agree)
      · right
        simp only [Clean, Function.update_of_ne same]
        exact ⟨clean, clean'⟩
  · obtain ⟨old, log, log', agree⟩ := alike.log
    refine ⟨entries ++ old, ?_, ?_, fun e member => ?_⟩
    · simp only [log, append_assoc]
    · simp only [log', append_assoc]
    · rcases mem_append.1 member with new | earlier
      · simp only [about e new, Function.update_self]
      · exact keeps _ (agree e earlier)

theorem fetch_eq (coherent : s.Coherent) (a : Address) : s.fetch a =
    { s with cache := update s.cache a (s.account a),
             nonExisting := (s.fetch a).nonExisting } := by
  cases cached : s.cache a with
  | some x =>
    have same : s.fetch a = s := by simp [fetch, cached]
    rw [same, account_of_cached cached, ← cached, update_eq_self]
  | none =>
    rw [account_of_uncached coherent cached]
    have untouched : update s.cache a none = s.cache := by
      rw [← cached, update_eq_self]
    unfold fetch
    rw [cached]
    simp only []
    split
    · rename_i missing
      rw [coherent a missing, Option.map_none, untouched]
    · split
      · rename_i untried
        rw [untried, Option.map_none, untouched]
      · rename_i entry tried
        rw [tried, Option.map_some]

theorem missing_fetch (coherent : s.Coherent) (a b : Address)
    (missing : (s.fetch a).nonExisting b) : s.trie b = none := by
  rw [← (store_fetch s a).trie]
  exact coherent_fetch coherent a b missing

section

variable (alike : Alike base base' t s)
include alike

theorem Alike.noteUnused (a : Address) :
    Lockstep base base' t s (t.noteUnused a) (s.noteUnused a) := by
  unfold ArtaxState.noteUnused
  rw [alike.addressInUse]
  split
  · exact .refl alike
  · rw [fetch_eq alike.coherent, fetch_eq alike.coherent', alike.account]
    exact alike.update a (s.account a) [] nofun alike.newAddress alike.transfers
      (by rw [alike.deleteAddresses]) (missing_fetch alike.coherent a)
      (missing_fetch alike.coherent' a)

theorem Alike.put (b : Address) (x : Account) (change : Change) (about : change.address = b) :
    Lockstep base base' t s ((t.putAccount b x).log change) ((s.putAccount b x).log change) :=
  alike.update b (some x) [change] (fun e member => by
    rw [mem_singleton.1 member, about]) alike.newAddress alike.transfers alike.deleteAddresses
    alike.coherent alike.coherent'

theorem Alike.createAccount (b : Address) (x : Account) (absent : s.account b = none) :
    Lockstep base base' t s (t.createAccount b x) (s.createAccount b x) := by
  have missing {r : ArtaxState} (coherent : r.Coherent) (untried : r.trie b = none) (a : Address)
      (known : Function.update r.nonExisting b false a) : r.trie a = none := by
    by_cases same : a = b
    · rw [same]
      exact untried
    · rw [Function.update_of_ne same] at known
      exact coherent a known
  have untried := (absent_of_account_none alike.coherent' absent).2
  exact alike.update b (some x) [.create b] (fun e member => by
    rw [mem_singleton.1 member]
    rfl) alike.newAddress alike.transfers alike.deleteAddresses
    (missing alike.coherent (alike.trie ▸ untried)) (missing alike.coherent' untried)

theorem Alike.incNonce (a : Address) :
    Lockstep base base' t s (t.incNonce a) (s.incNonce a) := by
  unfold ArtaxState.incNonce
  rw [alike.account, alike.startNonce]
  cases found : s.account a with
  | some x => exact alike.put a x.incNonce (.nonce a) rfl
  | none => exact alike.createAccount a _ found

theorem Alike.setStorage (a : Address) (key value : U256) :
    Lockstep base base' t s (t.setStorage a key value) (s.setStorage a key value) := by
  unfold ArtaxState.setStorage
  rw [alike.account, alike.storage]
  exact alike.put a _ (.storage a key (s.storage a key)) rfl

theorem Alike.setNewCode (a : Address) (code : Bytes) (agree : t.cache a = s.cache a) :
    Lockstep base base' t s (t.setNewCode a code) (s.setNewCode a code) := by
  unfold ArtaxState.setNewCode
  rw [agree]
  exact alike.put a _ (.newCode a) rfl

end

/-! ## Balances -/

theorem Alike.creditAddress (alike : Alike base base' t s) (a : Address) :
    t.creditAddress a = s.creditAddress a := by
  unfold ArtaxState.creditAddress
  rw [alike.account, alike.newAddress, alike.addressInUse]

theorem Alike.credited (alike : Alike base base' t s) (a : Address) (amount : U256) :
    t.credited a amount = s.credited a amount := by
  unfold ArtaxState.credited
  rw [alike.account, alike.startNonce]

theorem missing_credit (coherent : s.Coherent) (a b : Address)
    (missing : s.missingAfterCredit a b) : s.trie b = none := by
  unfold missingAfterCredit at missing
  cases found : s.account a with
  | some x =>
    rw [found] at missing
    exact coherent b missing
  | none =>
    rw [found] at missing
    by_cases same : b = s.creditAddress a
    · rw [same]
      exact (absent_of_account_none coherent (account_creditAddress_of_none found)).2
    · simp only [update_of_ne same] at missing
      exact coherent b missing

theorem address_of_mem_creditLog {amount : U256} {e : Change} (member : e ∈ s.creditLog a amount) :
    e.address = s.creditAddress a := by
  rcases mem_append.1 member with changed | touched
  · split at changed
    · cases changed
    · rw [mem_singleton.1 changed]
      rfl
  · unfold touchLog at touched
    cases found : s.account a with
    | some x =>
      rw [found] at touched
      simp only [] at touched
      rw [creditAddress_of_some found]
      split at touched
      · rw [mem_singleton.1 touched]
        rfl
      · cases touched
    | none =>
      rw [found] at touched
      rw [mem_singleton.1 touched]
      rfl

section

variable (alike : Alike base base' t s)
include alike

theorem Alike.addBalance (a : Address) (amount : U256) :
    Lockstep base base' t s (t.addBalance a amount).1 (s.addBalance a amount).1 := by
  have log : t.creditLog a amount = s.creditLog a amount := by
    rw [creditLog, creditLog, touchLog, touchLog, alike.creditAddress, alike.account]
  have next : t.newAddressAfterCredit a = s.newAddressAfterCredit a := by
    rw [newAddressAfterCredit, newAddressAfterCredit, alike.account, alike.newAddress,
      alike.addressInUse]
  rw [addBalance_eq, addBalance_eq, log, alike.creditAddress, alike.credited]
  exact alike.update _ _ _ (fun e member => address_of_mem_creditLog member) next alike.transfers
    alike.deleteAddresses (missing_credit alike.coherent a) (missing_credit alike.coherent' a)

theorem Alike.agree_addBalance (a : Address) (amount : U256) :
    (t.addBalance a amount).1.cache (s.creditAddress a) =
      (s.addBalance a amount).1.cache (s.creditAddress a) := by
  rw [cache_addBalance, cache_addBalance, alike.creditAddress, alike.credited,
    update_self, update_self]

theorem Alike.subBalance (a : Address) (value : U256) :
    Option.Rel (Lockstep base base' t s) (t.subBalance a value) (s.subBalance a value) := by
  unfold ArtaxState.subBalance
  rw [alike.account]
  split
  · exact .some (.refl alike)
  · cases s.account a with
    | none => exact .none
    | some x =>
      simp only []
      split
      · exact .none
      · exact .some (alike.addBalance a _)

theorem Alike.transferBalance (source target : Address) (value : U256) :
    Option.Rel (fun p q => p.2 = q.2 ∧ Lockstep base base' t s p.1 q.1 ∧
        p.1.cache p.2 = q.1.cache p.2)
      (t.transferBalance source target value) (s.transferBalance source target value) := by
  rw [transferBalance_eq, transferBalance_eq]
  refine (alike.subBalance source value).casesOn (fun {t₁ s₁} first => ?_) .none
  have resolved := first.alike.creditAddress target
  have second := first.alike.addBalance target value
  have agree := first.alike.agree_addBalance target value
  have moved := second.alike
  refine .some ⟨resolved, first.trans ⟨⟨moved.trie, moved.startNonce, moved.stateUTXO, moved.vin,
    moved.newAddress, ?_, moved.deleteAddresses, moved.coherent, moved.coherent', moved.caches,
    moved.log⟩, second.keeps, ?_, ?_⟩, ?_⟩
  · simp only [recordTransfer, resolved, moved.transfers]
  · exact ⟨second.store.trie, second.store.startNonce, second.store.stateUTXO,
      second.store.cacheUTXO⟩
  · exact ⟨second.store'.trie, second.store'.startNonce, second.store'.stateUTXO,
      second.store'.cacheUTXO⟩
  · simp only [recordTransfer, resolved]
    exact agree

end

/-! ## Rollback -/

theorem undoChange_of_ne (cache : Address → Option Account) (e : Change) (other : a ≠ e.address) :
    undoChange cache e a = cache a := by
  cases e <;> exact update_of_ne other _ _

theorem undoChange_congr {e : Change} (agree : cache e.address = cache' e.address)
    (same : cache a = cache' a) :
    undoChange cache e a = undoChange cache' e a := by
  by_cases here : a = e.address
  · subst here
    cases e <;> simp only [undoChange, Change.address, update_self] at agree ⊢ <;>
      rw [agree]
  · rw [undoChange_of_ne cache e here, undoChange_of_ne cache' e here, same]

theorem foldl_undoChange {entries : List Change}
    (agree : ∀ e ∈ entries, cache e.address = cache' e.address) (a : Address) :
    (cache a = cache' a →
      entries.foldl undoChange cache a = entries.foldl undoChange cache' a) ∧
    (cache a ≠ cache' a → entries.foldl undoChange cache a = cache a ∧
      entries.foldl undoChange cache' a = cache' a) := by
  induction entries generalizing cache cache' with
  | nil => exact ⟨id, fun _ => ⟨rfl, rfl⟩⟩
  | cons e rest ih =>
    have here := agree e mem_cons_self
    have later : ∀ d ∈ rest, undoChange cache e d.address = undoChange cache' e d.address :=
      fun d member => undoChange_congr here (agree d (mem_cons_of_mem e member))
    constructor
    · intro same
      exact (ih later).1 (undoChange_congr here same)
    · intro differ
      have other : a ≠ e.address := fun same => differ (same ▸ here)
      have left := undoChange_of_ne cache e other
      have right := undoChange_of_ne cache' e other
      obtain ⟨kept, kept'⟩ := (ih later).2 (by rw [left, right]; exact differ)
      exact ⟨kept.trans left, kept'.trans right⟩

theorem rollback_above {rest entries : List Change} (log : s.changeLog = entries ++ rest)
    {n k : Nat} (height : n = k + rest.length) : s.rollback n =
      { s with cache := (entries.take (entries.length - k)).foldl undoChange s.cache,
               changeLog := entries.drop (entries.length - k) ++ rest } := by
  have count : s.changeLog.length - n = entries.length - k := by
    rw [log, length_append]
    omega
  simp only [ArtaxState.rollback, count]
  rw [log, take_append_of_le_length (Nat.sub_le _ _),
    drop_append_of_le_length (Nat.sub_le _ _)]

theorem Alike.rollback (alike : Alike base base' t s) {n n' k : Nat} (height : n = k + base.length)
    (height' : n' = k + base'.length) :
    Lockstep base base' t s (t.rollback n) (s.rollback n') := by
  obtain ⟨entries, log, log', agree⟩ := alike.log
  rw [rollback_above log height, rollback_above log' height']
  have undone : ∀ e ∈ entries.take (entries.length - k), t.cache e.address = s.cache e.address :=
    fun e member => agree e (mem_of_mem_take member)
  refine ⟨⟨alike.trie, alike.startNonce, alike.stateUTXO, alike.vin, alike.newAddress,
    alike.transfers, alike.deleteAddresses, alike.coherent, alike.coherent', fun a => ?_, ?_⟩,
    fun a => (foldl_undoChange undone a).1, ⟨rfl, rfl, rfl, rfl⟩, ⟨rfl, rfl, rfl, rfl⟩⟩
  · by_cases same : t.cache a = s.cache a
    · exact .inl ((foldl_undoChange undone a).1 same)
    · obtain ⟨kept, kept'⟩ := (foldl_undoChange undone a).2 same
      obtain ⟨clean, clean'⟩ := (alike.caches a).resolve_left same
      right
      simp only [Clean, kept, kept']
      exact ⟨clean, clean'⟩
  · exact ⟨entries.drop (entries.length - k), rfl, rfl, fun e member =>
      (foldl_undoChange undone _).1 (agree e (mem_of_mem_drop member))⟩

/-! ## Frames -/

variable {se : SealEngine} {env : EnvInfo}

theorem Alike.call (alike : Alike base base' t s) (se : SealEngine) (env : EnvInfo)
    (p : CallParameters) (gasCovers : Bool) :
    Option.Rel (fun x y => x.2 = y.2 ∧ Lockstep base base' t s x.1 y.1)
      (Executive.call se env p gasCovers t) (Executive.call se env p gasCovers s) := by
  unfold Executive.call
  simp only []
  split
  · refine .some ⟨rfl, ?_⟩
    split
    · exact alike.addBalance p.codeAddress 0#256
    · exact .refl alike
  · have noted := alike.noteUnused p.receiveAddress
    have moved := noted.alike.transferBalance p.senderAddress p.receiveAddress p.valueTransfer
    rw [alike.addressHasCode]
    exact moved.casesOn (fun step => .some ⟨rfl, noted.trans step.2.1⟩) .none

/-- Both states open an account at the same address, under savepoints of the same height, and hold
the same cache entry there. -/
theorem Alike.openAccount (alike : Alike base base' t s) (se : SealEngine) (env : EnvInfo)
    (creator : Address) (endowment : U256) :
    Option.Rel (fun x y => x.newAddress = y.newAddress ∧
        Lockstep base base' t s x.state y.state ∧
        x.state.cache x.newAddress = y.state.cache x.newAddress ∧
        ∃ k, x.savepoint = k + base.length ∧ y.savepoint = k + base'.length)
      (Executive.openAccount se env creator endowment t)
      (Executive.openAccount se env creator endowment s) := by
  have counted := alike.incNonce creator
  have moved := counted.alike.transferBalance creator
    (se.contractAddress creator (s.getNonce creator)) endowment
  unfold Executive.openAccount
  simp only [alike.getNonce]
  refine moved.casesOn (fun {x y} step => ?_) .none
  obtain ⟨resolved, steps, agree⟩ := step
  have nonce := steps.alike.incNonce x.2
  refine .some ⟨resolved, counted.trans ?_, ?_, counted.alike.savepoint⟩
  · split
    · exact steps.trans (resolved ▸ nonce)
    · exact steps
  · simp only []
    split
    · rw [← resolved]
      exact nonce.keeps _ agree
    · exact agree

def OutcomeLockstep (base base' : List Change) (t s : ArtaxState) : Outcome → Outcome → Prop
  | .done left sub output, .done right sub' output' =>
    Lockstep base base' t s left right ∧ sub = sub' ∧ output = output'
  | .threw left e, .threw right e' => Lockstep base base' t s left right ∧ e = e'
  | _, _ => False

theorem OutcomeLockstep.after (first : Lockstep base base' t s t₁ s₁) :
    ∀ {x y : Option Outcome}, Option.Rel (OutcomeLockstep base base' t₁ s₁) x y →
      Option.Rel (OutcomeLockstep base base' t s) x y
  | _, _, .none => .none
  | some (.done _ _ _), some (.done _ _ _), .some ⟨step, same⟩ => .some ⟨first.trans step, same⟩
  | some (.threw _ _), some (.threw _ _), .some ⟨step, same⟩ => .some ⟨first.trans step, same⟩

def RunsAlike (se : SealEngine) (env : EnvInfo) (trace : Trace) : Prop :=
  ∀ {base base' : List Change} {t s : ArtaxState} (f : Frame) (sub : SubState),
    Alike base base' t s → Option.Rel (OutcomeLockstep base base' t s)
      (run se env trace f t sub) (run se env trace f s sub)

theorem RunsAlike.after (alike : RunsAlike se env rest) (step : Lockstep base base' t s t₁ s₁)
    (f : Frame) (sub : SubState) :
    Option.Rel (OutcomeLockstep base base' t s) (run se env rest f t₁ sub)
      (run se env rest f s₁ sub) :=
  OutcomeLockstep.after step (alike f sub step.alike)

theorem runsAlike_suicide (dest : Address) : RunsAlike se env (.suicide dest) := by
  intro base base' t s f sub alike
  have noted := alike.noteUnused dest
  have moved := noted.alike.transferBalance f.myAddress dest ((s.noteUnused dest).balance f.myAddress)
  simp only [run]
  rw [noted.alike.balance]
  exact moved.casesOn (fun step => .some ⟨noted.trans step.2.1, rfl, rfl⟩) .none

theorem runsAlike_call (op : CallOp) (codeAddress : Address) (value : U256) (gasCovers : Bool)
    (ihInner : RunsAlike se env inner) (ihRest : RunsAlike se env rest) :
    RunsAlike se env (.call op codeAddress value gasCovers inner rest) := by
  intro base base' t s f sub alike
  obtain ⟨k, height, height'⟩ := alike.savepoint
  simp only [run]
  rw [alike.balance]
  split
  case isFalse => exact ihRest f sub alike
  case isTrue =>
    have called := alike.call se env (f.callParameters op codeAddress value) gasCovers
    refine called.casesOn ?_ .none
    rintro ⟨entered, ext⟩ ⟨entered', _⟩ ⟨rfl, enter⟩
    cases ext with
    | false => exact ihRest.after enter f sub
    | true =>
      simp only []
      have inside := ihInner (f.callee (f.callParameters op codeAddress value)) {} enter.alike
      refine inside.casesOn (fun {x y} ends => ?_) .none
      match x, y, ends with
      | .done _ _ _, .done _ _ _, ⟨step, rfl, rfl⟩ => exact ihRest.after (enter.trans step) f _
      | .threw _ _, .threw _ _, ⟨step, rfl⟩ =>
        exact ihRest.after ((enter.trans step).trans (step.alike.rollback height height')) f sub

theorem runsAlike_create (hasInit : Bool) (ihInner : RunsAlike se env inner)
    (ihRest : RunsAlike se env rest) : RunsAlike se env (.create hasInit inner rest) := by
  intro base base' t s f sub alike
  simp only [run, create]
  split
  case isFalse => exact ihRest f sub alike
  case isTrue =>
    refine (alike.openAccount se env f.myAddress 0#256).casesOn (fun {made made'} opening => ?_) .none
    obtain ⟨same, enter, agree, k, height, height'⟩ := opening
    cases hasInit with
    | false =>
      simp only [Bool.false_eq_true, if_false, Bool.not_false, Bool.true_and]
      rw [← same, enter.alike.addressHasCode]
      split
      · exact ihRest.after (enter.trans (enter.alike.setNewCode _ [] agree)) f sub
      · exact ihRest.after enter f sub
    | true =>
      simp only [if_true, Bool.not_true, Bool.false_and, Bool.false_eq_true, if_false]
      rw [← same]
      have inside := ihInner ⟨made.newAddress, f.myAddress, f.depth + 1⟩ {} enter.alike
      refine inside.casesOn (fun {x y} ends => ?_) .none
      match x, y, ends with
      | .done _ _ output, .done _ _ _, ⟨step, rfl, rfl⟩ =>
        have deployed := step.alike.setNewCode made.newAddress output (step.keeps _ agree)
        exact ihRest.after ((enter.trans step).trans deployed) f _
      | .threw _ _, .threw _ _, ⟨step, rfl⟩ =>
        exact ihRest.after ((enter.trans step).trans (step.alike.rollback height height')) f sub

theorem Alike.refl (coherent : s.Coherent) : Alike s.changeLog s.changeLog s s :=
  ⟨rfl, rfl, rfl, fun _ => rfl, rfl, rfl, rfl, coherent, coherent, fun _ => .inl rfl,
    [], rfl, rfl, nofun⟩

theorem run_lockstep (se : SealEngine) (env : EnvInfo) (trace : Trace) : RunsAlike se env trace := by
  induction trace with
  | stop output => exact fun f sub alike => .some ⟨.refl alike, rfl, rfl⟩
  | exception e => exact fun f sub alike => .some ⟨.refl alike, rfl⟩
  | suicide dest => exact runsAlike_suicide dest
  | sstore key value rest ih =>
    intro base base' t s f sub alike
    simp only [run]
    rw [alike.storage]
    exact ih.after (alike.setStorage f.myAddress key value) f _
  | log topics data rest ih => exact fun f sub alike => ih f _ alike
  | call op codeAddress value gasCovers inner rest ihInner ihRest =>
    exact runsAlike_call op codeAddress value gasCovers ihInner ihRest
  | create hasInit inner rest ihInner ihRest => exact runsAlike_create hasInit ihInner ihRest

end ArtaxState
end Artax
