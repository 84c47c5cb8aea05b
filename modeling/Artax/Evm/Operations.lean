import Artax.Evm.Executive
import Artax.Evm.Journal

/-!
# The operations of the contract state

For each operation of a frame: the accounts after it, and that it is a journaled step. A nonce or a
storage slot can only be undone where the account is dirty or not empty: otherwise the rollback
leaves an empty account marked as changed.
-/

namespace Artax
open Function Option

namespace ArtaxState

/-- There is an account, and marking it as changed does not make it vanish. -/
def Active (s : ArtaxState) (a : Address) : Prop :=
  ∃ x, s.account a = some x ∧ (x.isUnchanged = false ∨ x.isEmpty = false)

def Dirty (s : ArtaxState) (a : Address) : Prop :=
  ∃ x, s.cache a = some x ∧ x.isUnchanged = false

variable {s t : ArtaxState} {a b source target resolved : Address} {x : Account} {value : U256}

theorem Dirty.active (dirty : s.Dirty a) : s.Active a := by
  obtain ⟨x, cached, changed⟩ := dirty
  exact ⟨x, account_of_cached cached, .inl changed⟩

theorem Active.of_hasCode (code : s.addressHasCode a) :
    s.Active a := by
  unfold addressHasCode at code
  split at code
  · rename_i x found
    refine ⟨x, found, .inr ?_⟩
    have some : x.code.isEmpty = false := by simpa using code
    simp [Account.isEmpty, some]
  · cases code

theorem Restores.account_cases (restored : t.Restores s) (a : Address) :
    (t.account a = none ∧ s.account a = none) ∨
      ∃ y x, t.account a = some y ∧ s.account a = some x ∧ y.StandsFor x := by
  have related := restored.accounts a
  generalize t.account a = left at related
  generalize s.account a = right at related
  cases related with
  | none => exact .inl ⟨rfl, rfl⟩
  | @some y x stands => exact .inr ⟨y, x, rfl, rfl, stands⟩

theorem Restores.active (restored : t.Restores s) (active : s.Active a) : t.Active a := by
  obtain ⟨x, found, mark⟩ := active
  rcases restored.account_cases a with ⟨_, absent⟩ | ⟨y, x', here, there, stands⟩
  · rw [found] at absent
    cases absent
  · rw [found, some.injEq] at there
    subst there
    refine ⟨y, here, ?_⟩
    rw [stands.isEmpty_eq]
    exact mark.imp_left stands.dirty

theorem Restores.dirty (restored : t.Restores s) (dirty : s.Dirty a) : t.Dirty a := by
  obtain ⟨x, cached, changed⟩ := dirty
  obtain ⟨y, held⟩ := isSome_iff_exists.1 (restored.cached a (by simp [cached]))
  have related := restored.accounts a
  rw [account_of_cached held, account_of_cached cached] at related
  cases related with
  | some stands => exact ⟨y, held, stands.dirty changed⟩

theorem journaled_write (coherent : s.Coherent) {y : Account} (found : s.account a = some x)
    {change : Change} (address : change.address = a) (kept : change ≠ .create change.address)
    (dirty : ∀ b, change = .newCode b → y.isUnchanged = false)
    (undone : (undoAccount change y).StandsFor x) :
    Journaled s ((s.putAccount a y).log change) := by
  subst address
  have held : ((s.putAccount change.address y).log change).cache change.address = some y :=
    update_self ..
  refine ⟨[change], rfl, ⟨⟨y, held, dirty⟩, trivial⟩, ?_⟩
  change (undo change _).Restores s
  rw [undo_of_cached held kept]
  refine ⟨⟨rfl, rfl, rfl, rfl⟩, coherent, coherent, fun b present => ?_, fun b => ?_⟩
  · by_cases same : b = change.address
    · subst same
      simp [setCache]
    · simpa [setCache, log, putAccount, same] using present
  · by_cases same : b = change.address
    · subst same
      rw [account_setCache_some, found]
      exact .some undone
    · rw [account_setCache_of_ne same, account_log, account_putAccount, if_neg same]
      cases s.account b with
      | none => exact .none
      | some z => exact .some (.refl z)

theorem journaled_createAccount (coherent : s.Coherent) (absent : s.account a = none) (x : Account)
    : Journaled s (s.createAccount a x) := by
  obtain ⟨uncached, untried⟩ := absent_of_account_none coherent absent
  have created : (s.createAccount a x).Coherent := by
    intro b missing
    by_cases same : b = a
    · rw [same]
      exact untried
    · exact coherent b (by simpa [createAccount, same] using missing)
  refine ⟨[.create a], rfl, ⟨⟨x, update_self .., by simp⟩, trivial⟩, ?_⟩
  change (undo (.create a) _).Restores s
  rw [undo_create]
  have undone : ((s.createAccount a x).setCache a none).Coherent := created
  refine .of_account_eq ⟨rfl, rfl, rfl, rfl⟩ undone coherent (fun b present => ?_) (fun b => ?_)
  · by_cases same : b = a
    · rw [same, uncached] at present
      cases present
    · simpa [setCache, createAccount, putAccount, same] using present
  · by_cases same : b = a
    · rw [same, absent, account_of_uncached undone (by simp [setCache])]
      simp [setCache, createAccount, putAccount, untried]
    · rw [account_setCache_of_ne same, account_createAccount, if_neg same]

/-! ## Reading -/

theorem coherent_fetch (coherent : s.Coherent) (a : Address) :
    (s.fetch a).Coherent := by
  unfold fetch
  split
  · exact coherent
  · split
    · exact coherent
    · split
      · rename_i untried
        intro b missing
        by_cases same : b = a
        · rw [same]
          exact untried
        · exact coherent b (by simpa [same] using missing)
      · exact coherent

theorem cache_fetch_of_some (cached : s.cache b = some x) (a : Address) :
    (s.fetch a).cache b = some x := by
  unfold fetch
  split
  · exact cached
  · rename_i uncached
    split
    · exact cached
    · split
      · exact cached
      · have other : b ≠ a := by
          rintro rfl
          rw [cached] at uncached
          cases uncached
        simpa [other] using cached

theorem cache_fetch_of_absent (coherent : s.Coherent) (absent : s.account a = none) :
    (s.fetch a).cache = s.cache := by
  unfold fetch
  rw [(absent_of_account_none coherent absent).1, (absent_of_account_none coherent absent).2]
  dsimp only
  split <;> rfl

section

variable (s : ArtaxState) (a : Address)

theorem store_fetch : (s.fetch a).SameStore s := by
  unfold fetch
  split
  · exact .refl s
  · split
    · exact .refl s
    · split <;> exact ⟨rfl, rfl, rfl, rfl⟩

theorem changeLog_fetch : (s.fetch a).changeLog = s.changeLog := by
  unfold fetch
  split
  · rfl
  · split
    · rfl
    · split <;> rfl

theorem fetch_rest :
    (s.fetch a).newAddress = s.newAddress ∧ (s.fetch a).transfers = s.transfers ∧
      (s.fetch a).deleteAddresses = s.deleteAddresses := by
  unfold fetch
  split
  · exact ⟨rfl, rfl, rfl⟩
  · split
    · exact ⟨rfl, rfl, rfl⟩
    · split <;> exact ⟨rfl, rfl, rfl⟩

theorem newAddress_noteUnused : (s.noteUnused a).newAddress = s.newAddress := by
  unfold noteUnused
  split
  · rfl
  · exact (fetch_rest s a).1

theorem transfers_noteUnused : (s.noteUnused a).transfers = s.transfers := by
  unfold noteUnused
  split
  · rfl
  · exact (fetch_rest s a).2.1

end

theorem mem_deleteAddresses_noteUnused (s : ArtaxState) (a b : Address) :
    b ∈ (s.noteUnused a).deleteAddresses ↔
      b ∈ s.deleteAddresses ∨ (b = a ∧ s.account a = none) := by
  unfold noteUnused addressInUse
  cases found : s.account a with
  | some x => simp
  | none => simp [or_comm]

theorem account_noteUnused (s : ArtaxState) (a b : Address) :
    (s.noteUnused a).account b = s.account b := by
  unfold noteUnused
  split
  · rfl
  · exact account_fetch s a b

theorem cache_noteUnused_of_some (cached : s.cache b = some x) (a : Address) :
    (s.noteUnused a).cache b = some x := by
  unfold noteUnused
  split
  · exact cached
  · exact cache_fetch_of_some cached a

theorem journaled_noteUnused (coherent : s.Coherent) (a : Address) :
    Journaled s (s.noteUnused a) := by
  refine ⟨[], ?_, trivial, ?_⟩
  · unfold noteUnused
    split
    · rfl
    · exact changeLog_fetch s a
  · refine .of_account_eq ?_ ?_ coherent (fun b present => ?_) (account_noteUnused s a)
    · unfold noteUnused
      split
      · exact .refl s
      · have store := store_fetch s a
        exact ⟨store.trie, store.startNonce, store.stateUTXO, store.cacheUTXO⟩
    · unfold noteUnused
      split
      · exact coherent
      · exact coherent_fetch coherent a
    · obtain ⟨x, cached⟩ := isSome_iff_exists.1 present
      exact isSome_iff_exists.2 ⟨x, cache_noteUnused_of_some cached a⟩

/-! ## Balances -/

def credited (s : ArtaxState) (a : Address) (amount : U256) : Account :=
  match s.account a with
  | some x => x.addBalance amount
  | none => .fresh s.accountStartNonce amount

theorem isUnchanged_credited (s : ArtaxState) (a : Address) (amount : U256) :
    (s.credited a amount).isUnchanged = false := by
  unfold credited
  split <;> rfl

theorem creditAddress_of_some (found : s.account a = some x) : s.creditAddress a = a := by
  simp [creditAddress, found]

theorem account_creditAddress_of_none (absent : s.account a = none) :
    s.account (s.creditAddress a) = none := by
  unfold creditAddress
  rw [absent]
  split
  · rename_i present
    cases present
  · split
    · rename_i free
      have unused : s.addressInUse s.newAddress = false := by
        have both := Bool.and_eq_true_iff.1 free
        simpa using both.1
      simpa [addressInUse] using unused
    · exact absent

def touchLog (s : ArtaxState) (a : Address) : List Change :=
  match s.account a with
  | some x => if !x.isDirty && x.isEmpty then [.touch a] else []
  | none => [.create (s.creditAddress a)]

def creditLog (s : ArtaxState) (a : Address) (amount : U256) : List Change :=
  (if amount = 0#256 then [] else [.balance (s.creditAddress a) amount]) ++ s.touchLog a

def missingAfterCredit (s : ArtaxState) (a : Address) : Address → Bool :=
  match s.account a with
  | some _ => s.nonExisting
  | none => update s.nonExisting (s.creditAddress a) false

def newAddressAfterCredit (s : ArtaxState) (a : Address) : Address :=
  match s.account a with
  | some _ => s.newAddress
  | none => if !s.addressInUse s.newAddress && s.newAddress != 0 then 0 else s.newAddress

section

variable (s : ArtaxState) (a : Address) (amount : U256)

theorem addBalance_eq :
    (s.addBalance a amount).1 = { s with
      cache := update s.cache (s.creditAddress a) (some (s.credited a amount))
      nonExisting := s.missingAfterCredit a
      changeLog := s.creditLog a amount ++ s.changeLog
      newAddress := s.newAddressAfterCredit a } := by
  unfold addBalance credit credited creditLog touchLog missingAfterCredit newAddressAfterCredit
  cases found : s.account a with
  | some x =>
    rw [creditAddress_of_some found]
    by_cases touched : (!x.isDirty && x.isEmpty) = true <;> by_cases zero : amount = 0#256 <;>
      simp [touched, zero, putAccount, log]
  | none =>
    by_cases free : (!s.addressInUse s.newAddress && s.newAddress != 0) = true <;>
      by_cases zero : amount = 0#256 <;> simp [free, zero, createAccount, putAccount, log]

theorem cache_addBalance :
    (s.addBalance a amount).1.cache =
      update s.cache (s.creditAddress a) (some (s.credited a amount)) := by
  rw [addBalance_eq]

theorem nonExisting_addBalance :
    (s.addBalance a amount).1.nonExisting = s.missingAfterCredit a := by
  rw [addBalance_eq]

theorem changeLog_addBalance :
    (s.addBalance a amount).1.changeLog = s.creditLog a amount ++ s.changeLog := by
  rw [addBalance_eq]

theorem store_addBalance : (s.addBalance a amount).1.SameStore s := by
  rw [addBalance_eq]
  exact ⟨rfl, rfl, rfl, rfl⟩

theorem account_addBalance (b : Address) :
    (s.addBalance a amount).1.account b =
      if b = s.creditAddress a then some (s.credited a amount) else s.account b := by
  by_cases same : b = s.creditAddress a
  · rw [if_pos same, same]
    apply account_of_cached
    rw [cache_addBalance, update_self]
  · rw [if_neg same, addBalance_eq]
    refine account_congr (update_of_ne same _ _) ?_ rfl
    unfold missingAfterCredit
    cases s.account a with
    | some x => rfl
    | none => exact update_of_ne same _ _

end

theorem journaled_touch (coherent : s.Coherent) (a : Address) :
    Journaled s (s.addBalance a 0#256).1 := by
  have cache := cache_addBalance s a 0#256
  have nonExisting := nonExisting_addBalance s a 0#256
  have log := changeLog_addBalance s a 0#256
  have store := store_addBalance s a 0#256
  rw [creditLog, if_pos rfl, List.nil_append] at log
  cases found : s.account a with
  | none =>
    have absent := account_creditAddress_of_none found
    have step := journaled_createAccount coherent absent (.fresh s.accountStartNonce 0#256)
    simp only [credited, touchLog, missingAfterCredit, found] at cache nonExisting log
    exact step.congr step.coherent cache nonExisting log (store.trans step.store.symm)
  | some x =>
    simp only [credited, touchLog, missingAfterCredit, found, creditAddress_of_some found]
      at cache nonExisting log
    have nothing : (x.addBalance 0#256).balance = x.balance := BitVec.add_zero x.balance
    by_cases touched : (!x.isDirty && x.isEmpty) = true
    · have clean : x.isUnchanged := by
        have both := Bool.and_eq_true_iff.1 touched
        simpa [Account.isDirty] using both.1
      rw [if_pos touched] at log
      have undone : (undoAccount (.touch a) (x.addBalance 0#256)).StandsFor x :=
        ⟨rfl, rfl, nothing, rfl, rfl, fun changed => absurd (clean.symm.trans changed) nofun,
          fun _ => clean.symm⟩
      have step := journaled_write coherent found rfl (by simp) (by simp) undone
      exact step.congr step.coherent cache nonExisting log (store.trans step.store.symm)
    · rw [if_neg touched] at log
      -- no entry is needed: the account is dirty already, or not empty
      have stands : (x.addBalance 0#256).StandsFor x := by
        refine ⟨rfl, rfl, nothing, rfl, rfl, fun _ => rfl, fun empty => ?_⟩
        have changed : x.isUnchanged = false := by simpa [Account.isDirty, empty] using touched
        exact changed.symm
      refine ⟨[], log, trivial, store, store.coherent coherent (fun b => by rw [nonExisting]; exact id),
        coherent, fun b present => ?_, fun b => ?_⟩
      · change ((s.addBalance a 0#256).1.cache b).isSome
        by_cases same : b = a
        · rw [cache, same, update_self]
          rfl
        · rw [cache, update_of_ne same]
          exact present
      · change Option.Rel _ ((s.addBalance a 0#256).1.account b) _
        rw [account_addBalance, creditAddress_of_some found, credited, found]
        by_cases same : b = a
        · rw [if_pos same, same, found]
          exact .some stands
        · rw [if_neg same]
          exact (Restores.refl coherent).accounts b

theorem journaled_addBalance (coherent : s.Coherent) (a : Address) (amount : U256) :
    Journaled s (s.addBalance a amount).1 := by
  by_cases zero : amount = 0#256
  · rw [zero]
    exact journaled_touch coherent a
  · have touch := journaled_touch coherent a
    have held : (s.addBalance a 0#256).1.account (s.creditAddress a) =
        some (s.credited a 0#256) := by
      rw [account_addBalance, if_pos rfl]
    have undone : (undoAccount (.balance (s.creditAddress a) amount)
        (s.credited a amount)).StandsFor (s.credited a 0#256) := by
      unfold credited
      cases s.account a with
      | none =>
        refine .of_dirty rfl rfl ?_ rfl rfl rfl rfl
        simp [undoAccount, Account.addBalance, Account.fresh]
      | some x =>
        refine .of_dirty rfl rfl ?_ rfl rfl rfl rfl
        simp only [undoAccount, Account.addBalance]
        bv_omega
    have write := journaled_write touch.coherent held rfl (by simp) (by simp) undone
    refine (touch.trans write).congr write.coherent ?_ ?_ ?_ ?_
    · simp only [log, putAccount, cache_addBalance, update_idem]
    · simp only [log, putAccount, nonExisting_addBalance]
    · simp [log, putAccount, changeLog_addBalance, creditLog, zero]
    · exact (store_addBalance s a amount).trans (touch.trans write).store.symm

theorem subBalance_eq_some_iff :
    s.subBalance a value = some t ↔
      (value = 0#256 ∧ t = s) ∨
      (value ≠ 0#256 ∧ ∃ x, s.account a = some x ∧ value ≤ x.balance ∧
        t = (s.addBalance a (0#256 - value)).1) := by
  unfold subBalance
  by_cases zero : value = 0#256
  · simp [zero, eq_comm]
  · rw [if_neg zero]
    cases found : s.account a with
    | none => simp [zero]
    | some x =>
      by_cases short : x.balance < value
      · simp [zero, short, BitVec.not_le.2 short]
      · simp [zero, short, BitVec.not_lt.1 short, eq_comm]

def recordTransfer (s : ArtaxState) (source target : Address) (value : U256) : ArtaxState :=
  { s with transfers :=
      if value = 0#256 then s.transfers else s.transfers ++ [⟨source, target, value⟩] }

theorem transferBalance_eq (s : ArtaxState) (source target : Address) (value : U256) :
    s.transferBalance source target value = (s.subBalance source value).map fun u =>
      ((u.addBalance target value).1.recordTransfer source (u.creditAddress target) value,
        u.creditAddress target) := by
  unfold transferBalance recordTransfer
  cases s.subBalance source value with
  | none => rfl
  | some u =>
    have pair : u.addBalance target value = ((u.addBalance target value).1, u.creditAddress target) :=
      rfl
    simp only [map_some]
    rw [pair]
    by_cases zero : value = 0#256 <;> simp [zero]

theorem transferBalance_eq_some_iff : s.transferBalance source target value = some (t, resolved) ↔
      ∃ u, s.subBalance source value = some u ∧ resolved = u.creditAddress target ∧
        t = (u.addBalance target value).1.recordTransfer source resolved value := by
  rw [transferBalance_eq, map_eq_some_iff]
  constructor
  · rintro ⟨u, taken, same⟩
    simp only [Prod.mk.injEq] at same
    exact ⟨u, taken, same.2.symm, by rw [← same.1, ← same.2]⟩
  · rintro ⟨u, taken, rfl, rfl⟩
    exact ⟨u, taken, rfl⟩

section

variable (s : ArtaxState) (a : Address) (amount : U256)

theorem deleteAddresses_addBalance :
    (s.addBalance a amount).1.deleteAddresses = s.deleteAddresses := by
  rw [addBalance_eq]

theorem transfers_addBalance : (s.addBalance a amount).1.transfers = s.transfers := by
  rw [addBalance_eq]

theorem newAddress_addBalance :
    (s.addBalance a amount).1.newAddress = s.newAddressAfterCredit a := by
  rw [addBalance_eq]

end

theorem newAddressAfterCredit_cases (s : ArtaxState) (a : Address) :
    s.newAddressAfterCredit a = s.newAddress ∨ s.newAddressAfterCredit a = 0 := by
  unfold newAddressAfterCredit
  cases s.account a with
  | some x => exact .inl rfl
  | none =>
    simp only []
    split
    · exact .inr rfl
    · exact .inl rfl

theorem journaled_subBalance (coherent : s.Coherent) (taken : s.subBalance a value = some t) :
    Journaled s t := by
  obtain ⟨_, rfl⟩ | ⟨_, x, _, _, rfl⟩ := subBalance_eq_some_iff.1 taken
  · exact .refl coherent
  · exact journaled_addBalance coherent a _

theorem journaled_transferBalance (coherent : s.Coherent)
    (moved : s.transferBalance source target value = some (t, resolved)) : Journaled s t := by
  obtain ⟨u, taken, _, rfl⟩ := transferBalance_eq_some_iff.1 moved
  have first := journaled_subBalance coherent taken
  have second := journaled_addBalance first.coherent target value
  exact (first.trans second).congr second.coherent rfl rfl rfl ⟨rfl, rfl, rfl, rfl⟩

theorem dirty_of_transferBalance
    (moved : s.transferBalance source target value = some (t, resolved)) :
    t.Dirty resolved := by
  obtain ⟨u, _, rfl, rfl⟩ := transferBalance_eq_some_iff.1 moved
  exact ⟨u.credited target value, by simp only [recordTransfer, cache_addBalance, update_self],
    isUnchanged_credited u target value⟩

/-! ## Nonces, storage and code -/

theorem incNonce_of_some (found : s.account a = some x) :
    s.incNonce a = (s.putAccount a x.incNonce).log (.nonce a) := by
  simp [incNonce, found]

theorem journaled_incNonce (coherent : s.Coherent) (active : s.Active a) :
    Journaled s (s.incNonce a) := by
  obtain ⟨x, found, mark⟩ := active
  rw [incNonce_of_some found]
  refine journaled_write coherent found rfl (by simp) (by simp) ?_
  refine ⟨rfl, ?_, rfl, rfl, rfl, fun _ => rfl, fun empty => ?_⟩
  · simp only [undoAccount, Account.incNonce, Account.setNonce]
    bv_omega
  · have changed : x.isUnchanged = false := by simpa [empty] using mark
    exact changed.symm

theorem journaled_setStorage (coherent : s.Coherent) (active : s.Active a) (key value : U256) :
    Journaled s (s.setStorage a key value) := by
  obtain ⟨x, found, mark⟩ := active
  have same : s.setStorage a key value = (s.putAccount a (x.setStorage key value)).log
      (.storage a key (x.storage key)) := by
    simp [setStorage, storage, found, log, putAccount]
  rw [same]
  refine journaled_write coherent found rfl (by simp) (by simp) ?_
  refine ⟨rfl, rfl, rfl, rfl, ?_, fun _ => rfl, fun empty => ?_⟩
  · simp [undoAccount, Account.storage_setStorage]
  · have changed : x.isUnchanged = false := by simpa [empty] using mark
    exact changed.symm

theorem setNewCode_of_cached (cached : s.cache a = some x) (code : Bytes) :
    s.setNewCode a code = (s.putAccount a (x.setNewCode code)).log (.newCode a) := by
  simp [setNewCode, cached]

theorem journaled_setNewCode (coherent : s.Coherent) (dirty : s.Dirty a)
    (noCode : s.addressHasCode a = false) (code : Bytes) :
    Journaled s (s.setNewCode a code) := by
  obtain ⟨x, cached, changed⟩ := dirty
  have found := account_of_cached cached
  have empty : x.code = [] := by simpa [addressHasCode, found] using noCode
  rw [setNewCode_of_cached cached]
  refine journaled_write coherent found rfl (by simp) (fun _ _ => changed) ?_
  exact .of_dirty rfl rfl rfl empty.symm rfl changed changed

/-! ## Outputs -/

theorem vin_putVin (s : ArtaxState) (a b : Address) (v : Vin) :
    (s.putVin a v).vin b = if b = a then some v else s.vin b := by
  by_cases same : b = a
  · subst same
    simp [putVin, vin]
  · simp [putVin, vin, same]

end ArtaxState
end Artax
