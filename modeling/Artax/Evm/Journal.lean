import Artax.Evm.State
import Artax.Util.UndoLog

/-!
# What rollback restores

Every state-changing operation pushes the entries that undo it. Undoing gives back each account up to
`Account.StandsFor`: the same content, possibly marked as changed.
-/

namespace Artax

open Function
open Util (UndoLog)

namespace ArtaxState

/-- The negative cache never hides an account of the trie. -/
def Coherent (s : ArtaxState) : Prop := ∀ a, s.nonExisting a = true → s.trie a = none

variable {s t r : ArtaxState} {a : Address} {x y : Account} {change : Change}

@[simp] theorem account_log (s : ArtaxState) (change : Change) (a : Address) :
    (s.log change).account a = s.account a := rfl

theorem account_of_cached (cached : s.cache a = some x) : s.account a = some x := by
  simp [account, cached]

theorem account_of_uncached (coherent : s.Coherent) (uncached : s.cache a = none) :
    s.account a = (s.trie a).map Account.ofRecord := by
  simp only [account, uncached]
  split
  · rename_i missing
    rw [coherent a missing]
    rfl
  · rfl

theorem absent_of_account_none (coherent : s.Coherent) (absent : s.account a = none) :
    s.cache a = none ∧ s.trie a = none := by
  cases cached : s.cache a with
  | some x => simp [account_of_cached cached] at absent
  | none =>
    rw [account_of_uncached coherent cached, Option.map_eq_none_iff] at absent
    exact ⟨rfl, absent⟩

theorem account_congr (cache : t.cache a = s.cache a)
    (nonExisting : t.nonExisting a = s.nonExisting a) (trie : t.trie a = s.trie a) :
    t.account a = s.account a := by
  unfold account
  rw [cache, nonExisting, trie]

section

variable (s : ArtaxState) (a b : Address)

theorem account_putAccount (x : Account) :
    (s.putAccount a x).account b = if b = a then some x else s.account b := by
  by_cases same : b = a
  · subst same
    simp [putAccount, account]
  · rw [if_neg same]
    exact account_congr (update_of_ne same _ _) rfl rfl

theorem account_createAccount (x : Account) :
    (s.createAccount a x).account b = if b = a then some x else s.account b := by
  by_cases same : b = a
  · subst same
    simp [createAccount, putAccount, account]
  · rw [if_neg same]
    exact account_congr (update_of_ne same _ _) (update_of_ne same _ _) rfl

theorem account_fetch : (s.fetch a).account b = s.account b := by
  unfold fetch
  split
  · rfl
  · rename_i uncached
    split
    · rfl
    · rename_i unknown
      split
      · rename_i missing
        by_cases same : b = a
        · subst same
          simp [account, uncached, missing]
        · exact account_congr rfl (update_of_ne same _ _) rfl
      · rename_i entry found
        by_cases same : b = a
        · subst same
          simp [account, uncached, unknown, found]
        · exact account_congr (update_of_ne same _ _) rfl rfl

end

/-- The part of the state that no frame changes. -/
structure SameStore (t s : ArtaxState) : Prop where
  trie : t.trie = s.trie
  startNonce : t.accountStartNonce = s.accountStartNonce
  stateUTXO : t.stateUTXO = s.stateUTXO
  cacheUTXO : t.cacheUTXO = s.cacheUTXO

/-- One state has what another had: the same store, at least the cached accounts, and at every
address an account that stands for the other one. -/
structure Restores (t s : ArtaxState) : Prop where
  store : t.SameStore s
  coherent : t.Coherent
  coherent' : s.Coherent
  cached : ∀ a, (s.cache a).isSome → (t.cache a).isSome
  accounts : ∀ a, Option.Rel Account.StandsFor (t.account a) (s.account a)

theorem SameStore.refl (s : ArtaxState) : s.SameStore s := ⟨rfl, rfl, rfl, rfl⟩

theorem SameStore.trans (first : r.SameStore s) (second : s.SameStore t) :
    r.SameStore t :=
  ⟨first.trie.trans second.trie, first.startNonce.trans second.startNonce,
    first.stateUTXO.trans second.stateUTXO, first.cacheUTXO.trans second.cacheUTXO⟩

theorem SameStore.symm (same : t.SameStore s) : s.SameStore t :=
  ⟨same.trie.symm, same.startNonce.symm, same.stateUTXO.symm, same.cacheUTXO.symm⟩

theorem SameStore.coherent (store : t.SameStore s) (coherent : s.Coherent)
    (nonExisting : ∀ a, t.nonExisting a → s.nonExisting a) : t.Coherent := by
  intro a missing
  rw [store.trie]
  exact coherent a (nonExisting a missing)

theorem Restores.of_account_eq (store : t.SameStore s) (coherent : t.Coherent)
    (coherent' : s.Coherent) (cached : ∀ a, (s.cache a).isSome → (t.cache a).isSome)
    (same : ∀ a, t.account a = s.account a) : t.Restores s where
  store := store
  coherent := coherent
  coherent' := coherent'
  cached := cached
  accounts := fun a => by
    rw [same]
    cases s.account a with
    | none => exact .none
    | some x => exact .some (.refl x)

theorem Restores.refl (coherent : s.Coherent) : s.Restores s :=
  .of_account_eq (.refl s) coherent coherent (fun _ => id) (fun _ => rfl)

theorem Restores.trans (first : r.Restores s) (second : s.Restores t) :
    r.Restores t where
  store := first.store.trans second.store
  coherent := first.coherent
  coherent' := second.coherent'
  cached := fun a present => first.cached a (second.cached a present)
  accounts := fun a => relTrans (first.accounts a) (second.accounts a)
where
  relTrans {x y z : Option Account} (left : Option.Rel Account.StandsFor x y)
      (right : Option.Rel Account.StandsFor y z) : Option.Rel Account.StandsFor x z := by
    cases left with
    | none => exact right
    | some one =>
      cases right with
      | some two => exact .some (one.trans two)

def setCache (s : ArtaxState) (a : Address) (x : Option Account) : ArtaxState :=
  { s with cache := update s.cache a x }

theorem account_setCache_of_ne {b : Address} (other : b ≠ a) (x : Option Account) :
    (s.setCache a x).account b = s.account b :=
  account_congr (update_of_ne other _ _) rfl rfl

theorem account_setCache_some (s : ArtaxState) (a : Address) (x : Account) :
    (s.setCache a (some x)).account a = some x :=
  account_of_cached (by simp [setCache])

theorem Restores.setCache {old new : Option Account} (restored : t.Restores s) (a : Address)
    (cached : old.isSome → new.isSome) (here : Option.Rel Account.StandsFor
      ((t.setCache a new).account a) ((s.setCache a old).account a)) :
    (t.setCache a new).Restores (s.setCache a old) where
  store := ⟨restored.store.trie, restored.store.startNonce, restored.store.stateUTXO,
    restored.store.cacheUTXO⟩
  coherent := restored.coherent
  coherent' := restored.coherent'
  cached := fun b present => by
    by_cases same : b = a
    · subst same
      simpa [ArtaxState.setCache] using cached (by simpa [ArtaxState.setCache] using present)
    · have before : (s.cache b).isSome := by simpa [ArtaxState.setCache, same] using present
      simpa [ArtaxState.setCache, same] using restored.cached b before
  accounts := fun b => by
    by_cases same : b = a
    · exact same ▸ here
    · rw [account_setCache_of_ne same, account_setCache_of_ne same]
      exact restored.accounts b

theorem Restores.setCache_some (restored : t.Restores s) (a : Address) (stands : y.StandsFor x) :
    (t.setCache a (some y)).Restores (s.setCache a (some x)) := by
  refine restored.setCache a (fun _ => rfl) ?_
  rw [account_setCache_some, account_setCache_some]
  exact .some stands

theorem Restores.setCache_none (restored : t.Restores s) (a : Address) :
    (t.setCache a none).Restores (s.setCache a none) := by
  refine restored.setCache a id ?_
  have left : (t.setCache a none).Coherent := restored.coherent
  have right : (s.setCache a none).Coherent := restored.coherent'
  rw [account_of_uncached left (by simp [ArtaxState.setCache]),
    account_of_uncached right (by simp [ArtaxState.setCache])]
  change Option.Rel _ ((t.trie a).map _) ((s.trie a).map _)
  rw [restored.store.trie]
  cases s.trie a with
  | none => exact .none
  | some entry => exact .some (.refl _)

def undo (change : Change) (s : ArtaxState) : ArtaxState :=
  { s with cache := undoChange s.cache change }

/-- A change can be undone where its account is cached; undoing a code change also needs the
account to be dirty. -/
def Undoable (change : Change) (s : ArtaxState) : Prop :=
  ∃ x, s.cache change.address = some x ∧ (∀ a, change = .newCode a → x.isUnchanged = false)

/-- What undoing does to a cached account; a created account is dropped instead. -/
def undoAccount : Change → Account → Account
  | .storage _ key value, x => x.setStorage key value
  | .balance _ value, x => x.addBalance (0#256 - value)
  | .nonce _, x => x.setNonce (x.nonce - 1#256)
  | .create _, x => x
  | .newCode _, x => x.resetCode
  | .touch _, x => x.untouch

theorem undo_create (s : ArtaxState) (a : Address) : undo (.create a) s = s.setCache a none := rfl

theorem undo_of_cached (cached : s.cache change.address = some x)
    (kept : change ≠ .create change.address) :
    undo change s = s.setCache change.address (some (undoAccount change x)) := by
  cases change with
  | create a => exact absurd rfl kept
  | storage a | balance a | nonce a | newCode a | touch a =>
    have found : s.cache a = some x := cached
    simp [undo, undoChange, setCache, undoAccount, Change.address, found]

theorem undoAccount_standsFor (stands : y.StandsFor x)
    (dirty : ∀ a, change = .newCode a → x.isUnchanged = false) :
    (undoAccount change y).StandsFor (undoAccount change x) := by
  cases change with
  | storage a key value => exact stands.setStorage key value
  | balance a value => exact stands.addBalance (0#256 - value)
  | nonce a =>
    simp only [undoAccount, stands.nonce]
    exact stands.setNonce (x.nonce - 1#256)
  | create a => exact stands
  | newCode a => exact stands.resetCode (dirty a rfl)
  | touch a => exact stands.untouch

theorem Restores.undo (restored : t.Restores s) (ready : Undoable change s) :
    Undoable change t ∧ (ArtaxState.undo change t).Restores (ArtaxState.undo change s) := by
  obtain ⟨x, cached, dirty⟩ := ready
  have present := restored.cached change.address (by simp [cached])
  obtain ⟨y, held⟩ := Option.isSome_iff_exists.1 present
  have stands : y.StandsFor x := by
    have related := restored.accounts change.address
    rw [account_of_cached held, account_of_cached cached] at related
    cases related with
    | some stands => exact stands
  refine ⟨⟨y, held, fun a isCode => stands.dirty (dirty a isCode)⟩, ?_⟩
  by_cases creates : change = .create change.address
  · rw [creates, undo_create, undo_create]
    exact restored.setCache_none change.address
  · rw [undo_of_cached held creates, undo_of_cached cached creates]
    exact restored.setCache_some change.address (undoAccount_standsFor stands dirty)

def journal : UndoLog ArtaxState Change where
  undo := undo
  Ready := Undoable
  Restores := Restores
  trans := Restores.trans
  mono := Restores.undo

/-- A state was reached by changes that its change log records past the log it started with. -/
def Journaled (s t : ArtaxState) : Prop :=
  ∃ entries, t.changeLog = entries ++ s.changeLog ∧ journal.Logged s t entries

theorem Journaled.refl (coherent : s.Coherent) : Journaled s s :=
  ⟨[], rfl, trivial, Restores.refl coherent⟩

theorem Journaled.trans (first : Journaled r s) (second : Journaled s t) :
    Journaled r t := by
  obtain ⟨early, earlyLog, one⟩ := first
  obtain ⟨late, lateLog, two⟩ := second
  exact ⟨late ++ early, by rw [lateLog, earlyLog, List.append_assoc], one.trans two⟩

theorem Journaled.of_restores (step : Journaled r s) (restored : t.Restores s)
    (log : t.changeLog = s.changeLog) : Journaled r t := by
  obtain ⟨entries, entriesLog, logged⟩ := step
  exact ⟨entries, log.trans entriesLog, logged.of_restores restored⟩

theorem Journaled.congr {u : ArtaxState} (step : Journaled s t) (coherent : t.Coherent)
    (cache : u.cache = t.cache) (nonExisting : u.nonExisting = t.nonExisting)
    (log : u.changeLog = t.changeLog) (store : u.SameStore t) : Journaled s u := by
  refine step.of_restores (.of_account_eq store ?_ coherent ?_ ?_) log
  · exact store.coherent coherent fun a => by rw [nonExisting]; exact id
  · exact fun a => by rw [cache]; exact id
  · exact fun a => account_congr (by rw [cache]) (by rw [nonExisting]) (by rw [store.trie])

theorem undoAll_eq (entries : List Change) (t : ArtaxState) : journal.undoAll entries t =
    { t with cache := entries.foldl undoChange t.cache } := by
  induction entries generalizing t with
  | nil => rfl
  | cons change rest ih => exact ih (undo change t)

theorem Journaled.store {s t : ArtaxState} (step : Journaled s t) : t.SameStore s := by
  obtain ⟨entries, _, logged⟩ := step
  have restored : (journal.undoAll entries t).Restores s := logged.restores
  rw [undoAll_eq] at restored
  exact ⟨restored.store.trie, restored.store.startNonce, restored.store.stateUTXO,
    restored.store.cacheUTXO⟩

theorem Journaled.coherent (step : Journaled s t) : t.Coherent := by
  obtain ⟨entries, _, logged⟩ := step
  have restored : (journal.undoAll entries t).Restores s := logged.restores
  rw [undoAll_eq] at restored
  exact restored.coherent

theorem rollback_eq {entries : List Change} (log : t.changeLog = entries ++ s.changeLog) :
    t.rollback s.savepoint = { journal.undoAll entries t with changeLog := s.changeLog } := by
  have count : t.changeLog.length - s.savepoint = entries.length := by
    rw [log, List.length_append, savepoint, Nat.add_sub_cancel]
  simp only [rollback, count, undoAll_eq]
  rw [log, List.take_left, List.drop_left]

theorem Journaled.rollback (step : Journaled s t) :
    (t.rollback s.savepoint).Restores s ∧ (t.rollback s.savepoint).changeLog = s.changeLog := by
  obtain ⟨entries, log, logged⟩ := step
  rw [rollback_eq log]
  refine ⟨?_, rfl⟩
  have restored := logged.restores
  exact ⟨⟨restored.store.trie, restored.store.startNonce, restored.store.stateUTXO,
    restored.store.cacheUTXO⟩, restored.coherent, restored.coherent', restored.cached,
    restored.accounts⟩

theorem Journaled.rolledBack (before : Journaled r s) (frame : Journaled s t) :
    Journaled r (t.rollback s.savepoint) :=
  before.of_restores frame.rollback.1 frame.rollback.2

end ArtaxState
end Artax
