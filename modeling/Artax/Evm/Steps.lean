import Artax.Evm.Operations

/-!
# Frames as sequences of operations

A run of nested frames is a sequence of operations in which a frame that threw is rolled back as a
whole. Every invariant over executions is proved over `Steps`; what it assumes of a run is said by a
monitor of three events: a value transfer, code being set, and a rollback.
-/

namespace Artax

/-- What a run is assumed to do. -/
structure Monitor where
  source : Address → Prop
  deploy : ArtaxState → Address → Prop
  revert : ArtaxState → ArtaxState → Prop

namespace Monitor

def free : Monitor := ⟨fun _ => True, fun _ _ => True, fun _ _ => True⟩

/-- An account that code is set for may send coins. -/
def Lawful (m : Monitor) : Prop := ∀ s a, m.deploy s a → m.source a

theorem free_lawful : free.Lawful := fun _ _ _ => trivial

end Monitor

namespace ArtaxState

inductive Step (m : Monitor) (s : ArtaxState) : ArtaxState → Prop where
  | store {a : Address} (active : s.Active a) (key value : U256) :
      Step m s (s.setStorage a key value)
  | note (a : Address) : Step m s (s.noteUnused a)
  | touch (a : Address) : Step m s (s.addBalance a 0#256).1
  | transfer {source target resolved : Address} {value : U256} {t : ArtaxState}
      (allowed : value ≠ 0#256 → m.source source)
      (moved : s.transferBalance source target value = some (t, resolved)) : Step m s t
  | nonce {a : Address} (active : s.Active a) : Step m s (s.incNonce a)
  | deploy {a : Address} (dirty : s.Dirty a) (noCode : s.addressHasCode a = false)
      (allowed : m.deploy s a) (code : Bytes) : Step m s (s.setNewCode a code)

inductive Steps : Monitor → ArtaxState → ArtaxState → Prop where
  | refl {m : Monitor} (s : ArtaxState) : Steps m s s
  | tail {m : Monitor} {r s t : ArtaxState} : Steps m r s → Step m s t → Steps m r t
  | revert {m : Monitor} {r s t : ArtaxState} : Steps m r s → Steps .free s t → m.revert s t →
      Steps m r (t.rollback s.savepoint)

variable {m : Monitor} {s t : ArtaxState} {b a : Address} {y : Account} {value : U256}

theorem Steps.single (step : Step m s t) : Steps m s t :=
  .tail (.refl s) step

theorem Steps.trans {r : ArtaxState} (first : Steps m r s) (second : Steps m s t) :
    Steps m r t := by
  induction second with
  | refl => exact first
  | tail _ step ih => exact .tail (ih first) step
  | revert _ frame allowed ih _ => exact .revert (ih first) frame allowed

theorem Step.journaled (step : Step m s t) (coherent : s.Coherent) : Journaled s t := by
  cases step with
  | store active key value => exact journaled_setStorage coherent active key value
  | note a => exact journaled_noteUnused coherent a
  | touch a => exact journaled_touch coherent a
  | transfer _ moved => exact journaled_transferBalance coherent moved
  | nonce active => exact journaled_incNonce coherent active
  | deploy dirty noCode _ code => exact journaled_setNewCode coherent dirty noCode code

theorem Steps.journaled (steps : Steps m s t) (coherent : s.Coherent) : Journaled s t := by
  induction steps with
  | refl => exact .refl coherent
  | tail _ step ih =>
    have before := ih coherent
    exact before.trans (step.journaled before.coherent)
  | revert _ _ _ ih frame =>
    have before := ih coherent
    exact before.rolledBack (frame before.coherent)

theorem Steps.restores (frame : Steps m s t) (coherent : s.Coherent) :
    (t.rollback s.savepoint).Restores s :=
  (frame.journaled coherent).rollback.1

/-! ## Accounts that a frame works on -/

/-- An account that replaces another, or none, lives as that one does, and has its code unless there
was none and it may be set. -/
structure Revises (y : Account) (before : Option Account) (allowed : Prop) : Prop where
  changed : y.isUnchanged = false
  alive : y.isAlive = (before.getD (.fresh 0 0)).isAlive
  code : y.code = (before.getD (.fresh 0 0)).code ∨ (before.getD (.fresh 0 0)).code = [] ∧ allowed

/-- An account is the one before, still cached if it was, or a revised one. -/
def Revised (s : ArtaxState) (a : Address) (t : ArtaxState) (allowed : Prop) : Prop :=
  (t.account a = s.account a ∧ ∀ x, s.cache a = some x → t.cache a = some x) ∨
    ∃ y, t.cache a = some y ∧ Revises y (s.account a) allowed

namespace Revised

variable {allowed : Prop}

theorem refl (s : ArtaxState) (a : Address) : s.Revised a s allowed := .inl ⟨rfl, fun _ => id⟩

theorem trans {r : ArtaxState} (first : r.Revised a s allowed) (second : s.Revised a t allowed) :
    r.Revised a t allowed := by
  rcases first with ⟨same, cached⟩ | ⟨y, there, revised⟩
  · rw [Revised, same] at second
    exact second.imp_left fun ⟨same, cached'⟩ => ⟨same, fun x held => cached' x (cached x held)⟩
  rcases second with ⟨_, cached⟩ | ⟨z, here, again⟩
  · exact .inr ⟨y, cached y there, revised⟩
  · rw [account_of_cached there] at again
    refine .inr ⟨z, here, again.changed, again.alive.trans revised.alive, ?_⟩
    rcases revised.code with same | new
    · rw [← same]
      exact again.code
    · exact .inr new

theorem mono (revised : s.Revised a t False) : s.Revised a t allowed :=
  revised.imp_right fun ⟨y, cached, changed, alive, code⟩ =>
    ⟨y, cached, changed, alive, code.imp_right fun new => new.2.elim⟩

variable (revised : s.Revised a t allowed)
include revised

theorem kept : (s.Active a → t.Active a) ∧ (s.Dirty a → t.Dirty a) := by
  rcases revised with ⟨same, cached⟩ | ⟨y, cached, revised⟩
  · exact ⟨fun ⟨x, found, mark⟩ => ⟨x, same.trans found, mark⟩,
      fun ⟨x, held, mark⟩ => ⟨x, cached x held, mark⟩⟩
  · have dirty : t.Dirty a := ⟨y, cached, revised.changed⟩
    exact ⟨fun _ => dirty.active, fun _ => dirty⟩

theorem unchanged (found : t.account a = some y) (mark : y.isUnchanged) : s.account a = some y := by
  rcases revised with ⟨same, _⟩ | ⟨x, cached, revised⟩
  · exact same.symm.trans found
  · rw [account_of_cached cached, Option.some.injEq] at found
    rw [← found, revised.changed] at mark
    cases mark

end Revised

theorem revised_addBalance (s : ArtaxState) (b : Address) (amount : U256) (a : Address) :
    s.Revised a (s.addBalance b amount).1 False := by
  rw [Revised, cache_addBalance]
  by_cases same : a = s.creditAddress b
  · rw [same, Function.update_self]
    refine .inr ⟨_, rfl, isUnchanged_credited s b amount, ?_, .inl ?_⟩
    all_goals
      rw [credited]
      cases there : s.account b with
      | none => simp [account_creditAddress_of_none there, Account.fresh]
      | some z => simp [creditAddress_of_some there, there, Account.addBalance]
  · rw [account_addBalance, if_neg same, Function.update_of_ne same]
    exact .inl ⟨rfl, fun _ => id⟩

theorem revised_subBalance (taken : s.subBalance b value = some t) (a : Address) :
    s.Revised a t False := by
  obtain ⟨_, rfl⟩ | ⟨_, _, _, _, rfl⟩ := subBalance_eq_some_iff.1 taken
  · exact .refl _ a
  · exact revised_addBalance s b _ a

theorem revised_putAccount {x : Account} {allowed : Prop} (found : s.account b = some x)
    (changed : y.isUnchanged = false) (alive : y.isAlive = x.isAlive)
    (code : a = b → y.code = x.code ∨ x.code = [] ∧ allowed) (change : Change) :
    s.Revised a ((s.putAccount b y).log change) allowed := by
  by_cases same : a = b
  · subst same
    rw [Revised, found]
    exact .inr ⟨y, Function.update_self .., changed, alive, code rfl⟩
  · refine .inl ⟨by rw [account_log, account_putAccount, if_neg same], fun x held => ?_⟩
    exact (Function.update_of_ne same _ _).trans held

theorem revised_incNonce (active : s.Active b) (a : Address) : s.Revised a (s.incNonce b) False := by
  obtain ⟨x, found, _⟩ := active
  rw [incNonce_of_some found]
  exact revised_putAccount (y := x.incNonce) found rfl rfl (fun _ => .inl rfl) _

/-- Code is only set where there is none and the monitor allows it. -/
theorem Step.revised (step : Step m s t) (a : Address) : s.Revised a t (m.deploy s a) := by
  cases step with
  | @store b active key value =>
    obtain ⟨x, found, _⟩ := active
    exact revised_putAccount (y := ((s.account b).getD {}).setStorage key value) found rfl
      (by rw [found]; rfl) (fun _ => .inl (by rw [found]; rfl)) _
  | note b =>
    exact .inl ⟨account_noteUnused s b a, fun x cached => cache_noteUnused_of_some cached b⟩
  | touch b => exact (revised_addBalance s b _ a).mono
  | @transfer _ target _ value _ _ moved =>
    obtain ⟨u, taken, _, rfl⟩ := transferBalance_eq_some_iff.1 moved
    exact ((revised_subBalance taken a).trans (revised_addBalance u target value a)).mono
  | nonce active => exact (revised_incNonce active a).mono
  | @deploy b dirty noCode allowed code =>
    obtain ⟨x, cached, changed⟩ := dirty
    have found := account_of_cached cached
    have empty : x.code = [] := by simpa [addressHasCode, found] using noCode
    rw [setNewCode_of_cached cached]
    exact revised_putAccount (y := x.setNewCode code) found changed rfl
      (fun same => .inr ⟨empty, same ▸ allowed⟩) _

theorem Steps.kept (steps : Steps m s t) (coherent : s.Coherent) (a : Address) :
    (s.Active a → t.Active a) ∧ (s.Dirty a → t.Dirty a) := by
  induction steps with
  | refl => exact ⟨id, id⟩
  | tail _ step ih =>
    have before := ih coherent
    have after := (step.revised a).kept
    exact ⟨fun active => after.1 (before.1 active), fun dirty => after.2 (before.2 dirty)⟩
  | revert earlier frame _ ih _ =>
    have before := ih coherent
    have restored := frame.restores (earlier.journaled coherent).coherent
    exact ⟨fun active => restored.active (before.1 active),
      fun dirty => restored.dirty (before.2 dirty)⟩

/-! ## What is not rolled back -/

theorem subBalance_rest (taken : s.subBalance a value = some t) :
    (t.newAddress = s.newAddress ∨ t.newAddress = 0) ∧ t.transfers = s.transfers ∧
      t.deleteAddresses = s.deleteAddresses := by
  obtain ⟨_, rfl⟩ | ⟨_, _, _, _, rfl⟩ := subBalance_eq_some_iff.1 taken
  · exact ⟨.inl rfl, rfl, rfl⟩
  · rw [newAddress_addBalance, transfers_addBalance, deleteAddresses_addBalance]
    exact ⟨newAddressAfterCredit_cases s a, rfl, rfl⟩

theorem transfers_transferBalance {source target resolved : Address}
    (moved : s.transferBalance source target value = some (t, resolved)) : t.transfers =
      if value = 0#256 then s.transfers else s.transfers ++ [⟨source, resolved, value⟩] := by
  obtain ⟨u, taken, _, rfl⟩ := transferBalance_eq_some_iff.1 moved
  simp only [recordTransfer, transfers_addBalance, (subBalance_rest taken).2.1]

theorem incNonce_rest (s : ArtaxState) (a : Address) :
    (s.incNonce a).newAddress = s.newAddress ∧ (s.incNonce a).transfers = s.transfers ∧
      (s.incNonce a).deleteAddresses = s.deleteAddresses := by
  unfold incNonce
  split <;> exact ⟨rfl, rfl, rfl⟩

theorem Step.newAddress (step : Step m s t) :
    t.newAddress = s.newAddress ∨ t.newAddress = 0 := by
  cases step with
  | store | deploy => exact .inl rfl
  | note a => exact .inl (newAddress_noteUnused s a)
  | touch a =>
    rw [newAddress_addBalance]
    exact newAddressAfterCredit_cases s a
  | @transfer _ target _ value _ _ moved =>
    obtain ⟨u, taken, _, rfl⟩ := transferBalance_eq_some_iff.1 moved
    have added := newAddressAfterCredit_cases u target
    rw [← newAddress_addBalance u target value] at added
    rcases added with same | zero
    · exact (subBalance_rest taken).1.imp same.trans same.trans
    · exact .inr zero
  | nonce => exact .inl (incNonce_rest s _).1

theorem Steps.newAddress (steps : Steps m s t) :
    t.newAddress = s.newAddress ∨ t.newAddress = 0 := by
  induction steps with
  | refl => exact .inl rfl
  | tail _ step ih => exact step.newAddress.elim (fun same => same ▸ ih) .inr
  | revert _ _ _ ih frame => exact frame.elim (fun same => same ▸ ih) .inr

theorem Step.mem_deleteAddresses (step : Step m s t) (a : Address) :
    (a ∈ s.deleteAddresses → a ∈ t.deleteAddresses) ∧
      (a ∈ t.deleteAddresses → a ∈ s.deleteAddresses ∨ s.account a = none) := by
  have unchanged (same : t.deleteAddresses = s.deleteAddresses) :
      (a ∈ s.deleteAddresses → a ∈ t.deleteAddresses) ∧
        (a ∈ t.deleteAddresses → a ∈ s.deleteAddresses ∨ s.account a = none) := by
    rw [same]
    exact ⟨id, .inl⟩
  cases step with
  | store | deploy => exact ⟨id, .inl⟩
  | note b =>
    rw [mem_deleteAddresses_noteUnused]
    refine ⟨.inl, Or.imp_right ?_⟩
    rintro ⟨rfl, absent⟩
    exact absent
  | touch b => exact unchanged (deleteAddresses_addBalance s b _)
  | @transfer _ target _ value _ _ moved =>
    obtain ⟨u, taken, _, rfl⟩ := transferBalance_eq_some_iff.1 moved
    exact unchanged ((deleteAddresses_addBalance u target value).trans (subBalance_rest taken).2.2)
  | nonce => exact unchanged (incNonce_rest s _).2.2

theorem Steps.deleteAddresses_subset (steps : Steps m s t) (member : a ∈ s.deleteAddresses) :
    a ∈ t.deleteAddresses := by
  induction steps with
  | refl => exact member
  | tail _ step ih => exact (step.mem_deleteAddresses a).1 (ih member)
  | revert _ _ _ ih frame => exact frame (ih member)

theorem Steps.not_mem_deleteAddresses (steps : Steps m s t) (coherent : s.Coherent)
    (active : s.Active a) (unmarked : a ∉ s.deleteAddresses) :
    a ∉ t.deleteAddresses := by
  induction steps with
  | refl => exact unmarked
  | tail earlier step ih =>
    intro listed
    obtain ⟨x, found, _⟩ := (earlier.kept coherent a).1 active
    rcases (step.mem_deleteAddresses a).2 listed with old | absent
    · exact ih coherent active unmarked old
    · rw [found] at absent
      cases absent
  | revert earlier _ _ ih frame =>
    exact frame (earlier.journaled coherent).coherent ((earlier.kept coherent a).1 active)
      (ih coherent active unmarked)

theorem Step.transfers (step : Step m s t) :
    s.transfers <+: t.transfers := by
  cases step with
  | store | deploy => exact List.prefix_rfl
  | note a => rw [transfers_noteUnused]
  | touch a => rw [transfers_addBalance]
  | transfer _ moved =>
    rw [transfers_transferBalance moved]
    split
    · exact List.prefix_rfl
    · exact List.prefix_append _ _
  | nonce => rw [(incNonce_rest s _).2.1]

theorem Steps.transfers (steps : Steps m s t) :
    s.transfers <+: t.transfers := by
  induction steps with
  | refl => exact List.prefix_rfl
  | tail _ step ih => exact ih.trans step.transfers
  | revert _ _ _ ih frame => exact ih.trans frame

/-! ## Unchanged accounts -/

/-- Accounts that are not marked as changed are worth what the trie says, and have its code. -/
def Faithful (s : ArtaxState) : Prop :=
  ∀ a x, s.account a = some x → x.isUnchanged = true →
    ∃ entry, s.trie a = some entry ∧ x.balance = entry.balance ∧ x.code = entry.code

theorem Faithful.steps (faithful : s.Faithful) (coherent : s.Coherent) (steps : Steps m s t) :
    t.Faithful := by
  induction steps with
  | refl => exact faithful
  | tail earlier step ih =>
    intro a x found mark
    have store := (step.journaled (earlier.journaled coherent).coherent).store
    rw [store.trie]
    exact ih faithful coherent a x ((step.revised a).unchanged found mark) mark
  | revert earlier frame _ ih _ =>
    intro a y found mark
    have restored := frame.restores (earlier.journaled coherent).coherent
    rw [restored.store.trie]
    rcases restored.account_cases a with ⟨absent, _⟩ | ⟨y', x, here, there, stands⟩
    · rw [found] at absent
      cases absent
    · rw [found, Option.some.injEq] at here
      subst here
      obtain ⟨entry, stored, balance, code⟩ := ih faithful coherent a x there (stands.unchanged mark)
      exact ⟨entry, stored, stands.balance.trans balance, stands.code.trans code⟩

/-! ## Code -/

def code (s : ArtaxState) (a : Address) : Bytes :=
  match s.account a with
  | some x => x.code
  | none => []

theorem addressHasCode_eq (s : ArtaxState) (a : Address) :
    s.addressHasCode a = !(s.code a).isEmpty := by
  unfold addressHasCode code
  cases s.account a <;> rfl

theorem Restores.code (restored : t.Restores s) (a : Address) :
    t.code a = s.code a := by
  unfold ArtaxState.code
  rcases restored.account_cases a with ⟨here, there⟩ | ⟨y, x, here, there, stands⟩
  · rw [here, there]
  · rw [here, there]
    exact stands.code

theorem Revised.code {allowed : Prop} (revised : s.Revised a t allowed) (present : t.code a ≠ []) :
    s.code a ≠ [] ∨ allowed := by
  rcases revised with ⟨same, _⟩ | ⟨y, cached, revised⟩
  · rw [ArtaxState.code, same] at present
    exact .inl present
  · rw [ArtaxState.code, account_of_cached cached] at present
    refine revised.code.imp (fun same => ?_) And.right
    have present' : y.code ≠ [] := present
    rw [same] at present'
    unfold ArtaxState.code
    cases found : s.account a with
    | none => simp [found, Account.fresh] at present'
    | some x => simpa [found] using present'

theorem Steps.codes (lawful : m.Lawful) (steps : Steps m s t) (coherent : s.Coherent)
    (codes : ∀ a, s.code a ≠ [] → m.source a) :
    ∀ a, t.code a ≠ [] → m.source a := by
  induction steps with
  | refl => exact codes
  | tail _ step ih =>
    intro a present
    rcases (step.revised a).code present with before | allowed
    · exact ih lawful coherent codes a before
    · exact lawful _ a allowed
  | revert earlier frame _ ih _ =>
    intro a present
    have restored := frame.restores (earlier.journaled coherent).coherent
    exact ih lawful coherent codes a (restored.code a ▸ present)

end ArtaxState
end Artax
