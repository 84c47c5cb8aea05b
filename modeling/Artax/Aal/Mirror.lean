import Artax.Aal.Bookkeeping
import Artax.Aal.CodeSurvival
import Artax.Aal.VinOutputs

/-!
# Outputs mirror balances

Between executions the one output recorded for a contract is worth its balance. A successful
execution keeps it so if no frame that transferred value was rolled back and no contract is sender,
author or marked for deletion.
-/

namespace Artax

open Util.Ledger (total le_total total_update)
open CondensingTX Option BitVec

/-- An optional output holds a balance: an alive output of that value, and no alive output if there
is nothing to hold. -/
def Holds (output : Option Vin) (balance : U256) : Prop :=
  if balance = 0#256 then ∀ v, output = some v → v.alive = false
  else ∃ v, output = some v ∧ v.alive = true ∧ v.value = balance

theorem Holds.filter {output : Option Vin} {balance : U256} (holds : Holds output balance) :
    Holds (output.filter (·.alive)) balance := by
  unfold Holds at holds ⊢
  split
  · rename_i zero
    rw [if_pos zero] at holds
    cases output with
    | none => exact nofun
    | some v => simp [Option.filter, holds v rfl]
  · rename_i positive
    rw [if_neg positive] at holds
    obtain ⟨v, rfl, alive, value⟩ := holds
    exact ⟨v, by simp [Option.filter, alive], alive, value⟩

namespace ArtaxState

/-- Every contract's balance is held by its recorded output. -/
def Mirrored (s : ArtaxState) : Prop :=
  ∀ a entry, s.trie a = some entry → entry.code ≠ [] → Holds (s.stateUTXO a) entry.balance

theorem Mirrored.reset {s : ArtaxState} (mirrored : s.Mirrored) : s.reset.Mirrored := mirrored

def Unused (s : ArtaxState) (a : Address) : Prop := s.trie a = none ∧ s.stateUTXO a = none

variable {ctx : ExecutionContext} {env : EnvInfo} {tx : ArtaxTransaction} {s : ArtaxState}

/-- The condensing transaction will find the coins of an address: its output holds its balance,
and is not about to be deleted. -/
def Funded (env : EnvInfo) (tx : ArtaxTransaction) (s : ArtaxState) (a : Address) : Prop :=
  Holds (s.stateUTXO a) (s.balance a) ∧
    ((a ∉ s.deleteAddresses ∧ a ≠ tx.sender ∧ a ≠ env.author) ∨ s.stateUTXO a = none)

/-- Value is sent by the sender and from funded addresses, code is set at unused addresses, and
rolled back frames have not transferred value. -/
def books (env : EnvInfo) (tx : ArtaxTransaction) (s : ArtaxState) : Monitor where
  source := fun a => a = tx.sender ∨ Funded env tx s a
  deploy := fun _ a => s.Unused a
  revert := fun saved left => left.transfers = saved.transfers

/-- The executions that keep outputs and balances in step. -/
structure KeepsBooks (ctx : ExecutionContext) (env : EnvInfo) (tx : ArtaxTransaction)
    (s : ArtaxState) : Prop where
  stored : ∀ a entry, s.trie a = some entry → entry.code ≠ [] →
    a ∉ s.deleteAddresses ∧ a ≠ tx.sender ∧ a ≠ env.author
  sender : s.trie tx.sender = none
  frames : ∀ trace f entered, outermost ctx env tx s = some (trace, f, entered) →
    (history ctx.sealEngine env trace f entered).Allowed (books env tx s)
  creation : ∀ trace f entered left sub output, tx.isCreation = true →
    outermost ctx env tx s = some (trace, f, entered) →
    run ctx.sealEngine env trace f entered {} = some (.done left sub output) →
    left.addressHasCode f.myAddress = false ∧ s.Unused f.myAddress
  supply : ∀ trace f entered, outermost ctx env tx s = some (trace, f, entered) →
    (total s.ledger + tx.value.toNat) * (trace.moves + 2) < 2 ^ 256

/-! ## The start of an execution -/

variable {a : Address} {m : Monitor} {paid d : ArtaxState} {entered : Executive.Entered} {f : Frame}
  {ran : Executive.Ran}

section

variable (idle : s.Idle)
include idle

theorem balance_of_unused (unused : s.trie a = none) :
    s.balance a = 0#256 := by
  rw [balance, idle.account, unused]
  rfl

theorem lawful_books : (books env tx s).Lawful := by
  intro _ a unused
  refine .inr ⟨?_, .inr unused.2⟩
  rw [balance_of_unused idle unused.1, Holds, if_pos rfl, unused.2]
  exact nofun

variable (entry : Entry ctx env tx m (prepare ctx env tx s) paid entered f)
include entry

theorem balance_saved (fresh : s.trie tx.sender = none) (a : Address) :
    (paid.incNonce tx.sender).balance a = if a = tx.sender then tx.value else s.balance a := by
  by_cases same : a = tx.sender
  · subst same
    have start : (prepare ctx env tx s).Dirty tx.sender := dirty_prepare idle.newAddress
    have active := ((revised_subBalance entry.taken tx.sender).kept.2 start).active
    have credited := balance_addBalance s tx.sender (tx.value + tx.gas * tx.gasPrice) tx.sender
    rw [creditAddress_of_zero idle.newAddress, if_pos rfl, balance_of_unused idle fresh] at credited
    have prepared : (prepare ctx env tx s).balance tx.sender =
        0#256 + (tx.value + tx.gas * tx.gasPrice) := credited
    rw [if_pos rfl, balance_incNonce active, (balance_subBalance entry.taken tx.sender).2, if_pos rfl,
      prepared]
    bv_omega
  · rw [if_neg same]
    refine balance_congr ?_
    rw [entry.account_saved same, account_prepare idle.newAddress, if_neg same]

theorem total_saved (fresh : s.trie tx.sender = none) :
    total (paid.incNonce tx.sender).ledger = total s.ledger + tx.value.toNat := by
  have changed : (paid.incNonce tx.sender).ledger =
      Function.update s.ledger tx.sender tx.value.toNat := by
    funext a
    rw [ledger, balance_saved idle entry fresh]
    by_cases same : a = tx.sender
    · rw [if_pos same, same, Function.update_self]
    · rw [if_neg same, Function.update_of_ne same]
      rfl
  have sum := total_update s.ledger tx.sender tx.value.toNat
  have nothing : s.ledger tx.sender = 0 := by
    rw [ledger, balance_of_unused idle fresh]
    rfl
  rw [changed]
  omega

theorem booked_saved :
    Booked m (paid.incNonce tx.sender).ledger (paid.incNonce tx.sender) := by
  have nothing : (paid.incNonce tx.sender).transfers = [] :=
    entry.transfers_saved.trans ((transfers_prepare s).trans idle.transfers)
  refine ⟨rfl, fun a => ?_, ?_, ?_⟩
  · rw [nothing]
    rfl
  · rw [nothing]
    exact nofun
  · rw [nothing]
    exact nofun

theorem faithful_saved : (paid.incNonce tx.sender).Faithful := by
  intro a x found mark
  have store := entry.store_saved.trans (store_prepare s)
  by_cases same : a = tx.sender
  · have start : (prepare ctx env tx s).Dirty tx.sender := dirty_prepare idle.newAddress
    have active := ((revised_subBalance entry.taken tx.sender).kept.2 start).active
    obtain ⟨y, there, _⟩ := active
    rw [incNonce_of_some there, same, account_log, account_putAccount, if_pos rfl] at found
    cases found
    cases mark
  · rw [entry.account_saved same, account_prepare idle.newAddress, if_neg same, idle.account,
      map_eq_some_iff] at found
    obtain ⟨stored, found, rfl⟩ := found
    exact ⟨stored, by rw [store.trie, found], rfl, rfl⟩

theorem codes_saved (mirrored : s.Mirrored)
    (stored : ∀ a entry, s.trie a = some entry → entry.code ≠ [] →
      a ∉ s.deleteAddresses ∧ a ≠ tx.sender ∧ a ≠ env.author)
    (a : Address) (present : (paid.incNonce tx.sender).code a ≠ []) : (books env tx s).source a := by
  by_cases same : a = tx.sender
  · exact .inl same
  · refine .inr ?_
    have account : (paid.incNonce tx.sender).account a = (s.trie a).map Account.ofRecord := by
      rw [entry.account_saved same, account_prepare idle.newAddress, if_neg same, idle.account]
    rw [ArtaxState.code, account] at present
    cases found : s.trie a with
    | none =>
      rw [found] at present
      exact absurd rfl present
    | some record =>
      rw [found] at present
      have held := mirrored a record found present
      refine ⟨?_, .inl (stored a record found present)⟩
      rw [balance, idle.account, found]
      exact held

end

variable {entry : AccountRecord}

/-! ## A successful run -/

/-- A successful execution that keeps the books is, from the savepoint on, a sequence of steps that
does, and records few transfers. -/
structure Succeeded (ctx : ExecutionContext) (env : EnvInfo) (tx : ArtaxTransaction)
    (s paid : ArtaxState) (entered : Executive.Entered) (f : Frame) (ran : Executive.Ran) :
    Prop where
  entry : Entry ctx env tx (books env tx s) (prepare ctx env tx s) paid entered f
  steps : Steps (books env tx s) (paid.incNonce tx.sender) ran.state
  enter : Steps (books env tx s) entered.state ran.state
  recorded : ran.state.transfers.length ≤ (ctx.vm env tx entered.state.account).trace.moves + 1
  fits : total (paid.incNonce tx.sender).ledger * (ran.state.transfers.length + 1) < 2 ^ 256

theorem transfers_entered (idle : s.Idle)
    (performed : Performed ctx env tx (prepare ctx env tx s) entered f ran)
    (entry : Entry ctx env tx m (prepare ctx env tx s) paid entered f) :
    ∃ resolved, entered.state.transfers =
      if tx.value = 0#256 then [] else [⟨tx.sender, resolved, tx.value⟩] := by
  have nothing : paid.transfers = [] :=
    (subBalance_rest entry.taken).2.1.trans ((transfers_prepare s).trans idle.transfers)
  cases creates : tx.isCreation with
  | true =>
    have zero : tx.value = 0#256 := by
      by_contra nonzero
      exact performed.valid ⟨creates, nonzero⟩
    refine ⟨0, ?_⟩
    rw [if_pos zero]
    exact (transfers_openAccount (entry.created creates).2).trans nothing
  | false =>
    have executed := performed.executed
    have frame := performed.frame
    unfold Executive.execute at executed
    simp only [entry.taken, creates, Bool.false_eq_true, if_false] at executed
    unfold Executive.enterCall at executed
    simp only [] at executed
    split at executed
    · cases executed
    · rename_i after ext called
      cases executed
      cases ext with
      | false => cases frame
      | true =>
        obtain ⟨resolved, recorded⟩ := transfers_call called
        rw [(incNonce_rest paid tx.sender).2.1, nothing] at recorded
        exact ⟨resolved, recorded⟩

theorem succeeded_of_performed (idle : s.Idle) (mirrored : s.Mirrored)
    (keeps : KeepsBooks ctx env tx s)
    (performed : Performed ctx env tx (prepare ctx env tx s) entered f ran)
    (success : ran.excepted = .none) :
    ∃ paid, Succeeded ctx env tx s paid entered f ran := by
  obtain ⟨left, output, ended, last⟩ := go_succeeded performed.went success
  have outer := outermost_of_performed performed
  obtain ⟨paid, entry⟩ := entry_of_execute (m := books env tx s) (coherent_prepare idle.coherent)
    (dirty_prepare idle.newAddress) performed.valid (fun _ => .inl rfl) performed.executed
    performed.frame
  have coherent := (entry.steps.journaled entry.coherent).coherent
  have lawful : (books env tx s).Lawful := lawful_books idle
  have codes := entry.steps.codes lawful entry.coherent
    (codes_saved idle entry mirrored keeps.stored)
  -- the outermost frame runs at a contract that is called, or at the unused address of a new one
  have source : (books env tx s).source f.myAddress := by
    cases creates : tx.isCreation with
    | true =>
      exact lawful left _ (keeps.creation _ _ _ _ _ _ creates outer ended).2
    | false =>
      have hasCode := (entry.called creates).2
      rw [addressHasCode_eq] at hasCode
      exact codes_saved idle entry mirrored keeps.stored _ (by simpa using hasCode)
  have stepped := run_stepped _ ⟨lawful, coherent, entry.active, source, codes⟩
    (keeps.frames _ _ _ outer) ended
  have final : Steps (books env tx s) left ran.state := by
    rw [last]
    cases creates : tx.isCreation with
    | false => exact .refl left
    | true =>
      obtain ⟨noCode, unused⟩ := keeps.creation _ _ _ _ _ _ creates outer ended
      have dirty := (stepped.steps.kept coherent _).2 (entry.created creates).1
      exact .single (.deploy dirty noCode unused output)
  have enter := stepped.steps.trans final
  have recorded := transfers_length_run _ ended
  have before : entered.state.transfers.length ≤ 1 := by
    obtain ⟨resolved, first⟩ := transfers_entered idle performed entry
    rw [first]
    split
    · exact Nat.zero_le _
    · exact Nat.le_refl _
  have same : ran.state.transfers = left.transfers := by
    rw [last]
    split <;> rfl
  simp only [Outcome.state] at recorded
  have length : ran.state.transfers.length ≤
      (ctx.vm env tx entered.state.account).trace.moves + 1 := by
    rw [same]
    omega
  refine ⟨paid, entry, entry.steps.trans enter, enter, length, ?_⟩
  rw [total_saved idle entry keeps.sender]
  exact Nat.lt_of_le_of_lt (Nat.mul_le_mul_left _ (Nat.succ_le_succ length))
    (keeps.supply _ _ _ outer)

/-! ## The condensing transaction of a successful run -/

section Condensing

variable {paid : ArtaxState} {entered : Executive.Entered} {f : Frame} {ran : Executive.Ran}

def condensed (ctx : ExecutionContext) (env : EnvInfo) (tx : ArtaxTransaction)
    (ran : Executive.Ran) : CondensingInput :=
  condensingInput ctx tx (deletedState ctx env tx ran)

theorem transfers_condensed (ctx : ExecutionContext) (env : EnvInfo) (tx : ArtaxTransaction)
    (ran : Executive.Ran) : (condensed ctx env tx ran).transfers = ran.state.transfers :=
  (deletedState_rest ctx env tx ran).1

theorem deleteAddresses_condensed :
    (condensed ctx env tx ran).deleteAddresses = ran.state.deleteAddresses :=
  (deletedState_rest ctx env tx ran).2.1

namespace Succeeded

section

variable (succeeded : Succeeded ctx env tx s paid entered f ran)
include succeeded

theorem coherent : ran.state.Coherent :=
  (succeeded.steps.journaled succeeded.entry.coherent).coherent

theorem store : ran.state.SameStore s :=
  (succeeded.steps.journaled succeeded.entry.coherent).store.trans
    (succeeded.entry.store_saved.trans (store_prepare s))

theorem vin (idle : s.Idle) (a : Address) :
    ran.state.vin a = s.stateUTXO a := by
  rw [← idle.vin, ArtaxState.vin, ArtaxState.vin, succeeded.store.cacheUTXO,
    succeeded.store.stateUTXO]

theorem vin_condensed (idle : s.Idle) (a : Address) : (condensed ctx env tx ran).vin a =
      if a ∈ ran.state.deleteAddresses ∨ a ∈ ran.sub.suicides
      then (s.stateUTXO a).map deadVin else s.stateUTXO a := by
  rw [← succeeded.vin idle]
  exact vin_deletedState a

theorem deletes :
    tx.sender ∈ ran.state.deleteAddresses ∧ env.author ∈ ran.state.deleteAddresses := by
  have kept {a : Address} (listed : a ∈ (prepare ctx env tx s).deleteAddresses) :
      a ∈ ran.state.deleteAddresses :=
    succeeded.steps.deleteAddresses_subset (succeeded.entry.deleteAddresses_saved ▸ listed)
  exact ⟨kept (mem_deleteAddresses_prepare _ |>.2 (.inr (.inl rfl))),
    kept (mem_deleteAddresses_prepare _ |>.2 (.inl rfl))⟩

section

variable (idle : s.Idle)
include idle

theorem funded_kept {a : Address} {v : Vin} (funded : Funded env tx s a)
    (held : s.stateUTXO a = some v) :
    v.alive ∧ v.value = s.balance a ∧ a ∉ ran.state.deleteAddresses := by
  have alive := idle.vinsAlive a v held
  obtain ⟨holds, ⟨unlisted, notSender, notAuthor⟩ | none⟩ := funded
  · unfold Holds at holds
    split at holds
    · rw [holds v held] at alive
      cases alive
    · rename_i positive
      obtain ⟨w, held', _, value⟩ := holds
      rw [held, some.injEq] at held'
      subst held'
      refine ⟨alive, value, ?_⟩
      have account : (paid.incNonce tx.sender).account a = s.account a := by
        rw [succeeded.entry.account_saved notSender, account_prepare idle.newAddress,
          if_neg notSender]
      have active : (paid.incNonce tx.sender).Active a := by
        rw [balance] at positive
        cases found : s.account a with
        | none =>
          rw [found] at positive
          exact absurd rfl positive
        | some x =>
          rw [found] at positive
          refine ⟨x, account.trans found, .inr ?_⟩
          have nonzero : (x.balance == 0#256) = false := by simpa using positive
          simp [Account.isEmpty, nonzero]
      refine succeeded.steps.not_mem_deleteAddresses succeeded.entry.coherent active ?_
      rw [succeeded.entry.deleteAddresses_saved, mem_deleteAddresses_prepare]
      rintro (same | same | listed)
      · exact notAuthor same
      · exact notSender same
      · exact unlisted listed
  · rw [held] at none
    cases none

theorem selected_sender (performed : Performed ctx env tx (prepare ctx env tx s) entered f ran)
    (positive : 0#256 < tx.value) :
    (selectionVin (condensed ctx env tx ran)).find? tx.sender =
      some (ownVin (condensed ctx env tx ran)) := by
  obtain ⟨resolved, first⟩ := transfers_entered idle performed succeeded.entry
  have nonzero : tx.value ≠ 0#256 := (pos_iff_ne_zero _).1 positive
  rw [if_neg nonzero] at first
  obtain ⟨rest, extended⟩ := succeeded.enter.transfers
  rw [first] at extended
  exact selectionVin_sender (condensed ctx env tx ran)
    ((transfers_condensed ctx env tx ran).trans extended.symm) rfl positive

/-- The condensing transaction starts from the balances at the savepoint, for every party that may
have sent value. -/
theorem startValue_eq (fresh : s.trie tx.sender = none)
    (performed : Performed ctx env tx (prepare ctx env tx s) entered f ran) {a : Address}
    (source : (books env tx s).source a) (party : a ∈ parties (condensed ctx env tx ran).transfers) :
    startValue (condensed ctx env tx ran) (selectionVin (condensed ctx env tx ran)) a =
      (paid.incNonce tx.sender).balance a := by
  rw [balance_saved idle succeeded.entry fresh]
  by_cases pays : a = tx.sender ∧ 0#256 < tx.value
  · obtain ⟨rfl, positive⟩ := pays
    rw [if_pos rfl, startValue, succeeded.selected_sender idle performed positive]
    rfl
  · rw [startValue, selectionVin_find? _ pays party, succeeded.vin_condensed idle]
    by_cases isSender : a = tx.sender
    · have zero : tx.value = 0#256 := by
        by_contra nonzero
        exact pays ⟨isSender, (pos_iff_ne_zero _).2 nonzero⟩
      have listed : a ∈ ran.state.deleteAddresses := isSender ▸ succeeded.deletes.1
      have checked : checkDeleteAddress (condensed ctx env tx ran) a := by
        rw [checkDeleteAddress, deleteAddresses_condensed]
        exact decide_eq_true listed
      have gone : a ∈ ran.state.deleteAddresses ∨ a ∈ ran.sub.suicides := .inl listed
      rw [if_pos isSender, zero, checked]
      simp only [gone, if_true]
      cases s.stateUTXO a with
      | none => rfl
      | some v => rfl
    · rw [if_neg isSender]
      have funded := source.resolve_left isSender
      cases held : s.stateUTXO a with
      | none =>
        have holds := funded.1
        have nothing : s.balance a = 0#256 := by
          by_contra positive
          rw [Holds, if_neg positive, held] at holds
          obtain ⟨_, absent, _⟩ := holds
          cases absent
        rw [nothing]
        simp
      | some v =>
        obtain ⟨alive, value, unlisted⟩ := succeeded.funded_kept idle funded held
        have unchecked : checkDeleteAddress (condensed ctx env tx ran) a = false := by
          rw [checkDeleteAddress, deleteAddresses_condensed]
          exact decide_eq_false unlisted
        rw [unchecked, ← value]
        split <;> simp [deadVin]

theorem booked :
    Booked (books env tx s) (paid.incNonce tx.sender).ledger ran.state := by
  have fits : total (paid.incNonce tx.sender).ledger < 2 ^ 256 :=
    Nat.lt_of_le_of_lt (Nat.le_mul_of_pos_right _ (Nat.succ_pos _)) succeeded.fits
  exact (booked_saved idle succeeded.entry).steps (fun _ _ same => same) fits
    succeeded.entry.coherent succeeded.steps

theorem unwrapped (a : Address) :
    (paid.incNonce tx.sender).ledger a + transferTotal ran.state.transfers < 2 ^ 256 := by
  have bound := (succeeded.booked idle).transferTotal_le
  have part := le_total (paid.incNonce tx.sender).ledger a
  have fits := succeeded.fits
  rw [Nat.mul_add, Nat.mul_one, Nat.mul_comm] at fits
  omega

section

variable (fresh : s.trie tx.sender = none)
  (performed : Performed ctx env tx (prepare ctx env tx s) entered f ran)
include fresh performed

theorem newBalance_eq {a : Address} (source : (books env tx s).source a)
    (party : a ∈ parties (condensed ctx env tx ran).transfers) :
    SolventAt (condensed ctx env tx ran) a ∧
      newBalance (condensed ctx env tx ran) a = ran.state.balance a := by
  have start : spentValue (condensed ctx env tx ran) a = (paid.incNonce tx.sender).ledger a := by
    rw [← startValue_toNat, succeeded.startValue_eq idle fresh performed source party]
    rfl
  have unwrapped := succeeded.unwrapped idle a
  have balanced := (succeeded.booked idle).balanced a
  rw [← transfers_condensed ctx env tx ran, ← start] at unwrapped balanced
  have solvent := solventAt_of_exact unwrapped (by omega)
  have exact := newBalance_exact solvent unwrapped
  refine ⟨solvent, eq_of_toNat_eq ?_⟩
  change _ = ran.state.ledger a
  omega

theorem solvent : Solvent (condensed ctx env tx ran) := by
  intro a party
  by_cases source : (books env tx s).source a
  · exact (succeeded.newBalance_eq idle fresh performed source party).1
  · have nothing : sent ran.state.transfers a = 0#256 := by
      apply eq_of_toNat_eq
      rw [sent_toNat, (succeeded.booked idle).sentNat_eq_zero source]
      rfl
    rw [SolventAt, transfers_condensed, nothing]
    exact le_def.2 (Nat.zero_le _)

end

end

end

end Succeeded
end Condensing

/-! ## The committed state -/

theorem holds_recordVins (solvent : Solvent (condensingInput ctx tx d)) (notSender : a ≠ tx.sender)
    (party : a ∈ parties (condensingInput ctx tx d).transfers) :
    Holds ((recordVins ctx tx d).vin a) (newBalance (condensingInput ctx tx d) a) := by
  have reached := (solvent.reached_iff a).2 party
  change Holds ((d.updateUTXO (recordedVins ctx.computeHash (condensingInput ctx tx d))).vin a) _
  by_cases positive : 0#256 < newBalance (condensingInput ctx tx d) a
  · rw [vin_recorded ctx.computeHash _ d notSender reached positive, Holds,
      if_neg ((pos_iff_ne_zero _).1 positive)]
    exact ⟨_, rfl, rfl, rfl⟩
  · have zero : newBalance (condensingInput ctx tx d) a = 0#256 := by
      simpa [pos_iff_ne_zero] using positive
    have member := (mem_recordedVins_iff ctx.computeHash (condensingInput ctx tx d) a _).2
      ⟨notSender, reached, rfl⟩
    rw [if_neg positive] at member
    rw [vin_updateUTXO_of_mem _ d (recordedVins_nodup ctx.computeHash _) member, zero, Holds,
      if_pos rfl]
    intro v held
    split at held
    · cases held
      rfl
    · cases held

theorem vin_recordVins_of_not_party (outside : a ∉ parties (condensingInput ctx tx d).transfers) :
    (recordVins ctx tx d).vin a = d.vin a := by
  refine vin_updateUTXO_of_not_mem (recordedVins ctx.computeHash (condensingInput ctx tx d)) d a ?_
  intro listed
  obtain ⟨⟨b, v⟩, member, rfl⟩ := List.mem_map.1 listed
  exact outside ((mem_recordedVins_iff ctx.computeHash _ b v).1 member).2.1.1

theorem recordVins_rest (ctx : ExecutionContext) (tx : ArtaxTransaction) (d : ArtaxState) :
    (∀ a, (recordVins ctx tx d).account a = d.account a) ∧ (recordVins ctx tx d).SameTries d ∧
      (recordVins ctx tx d).nonExisting = d.nonExisting := by
  rw [recordVins, updateUTXO_eq]
  exact ⟨fun _ => account_congr rfl rfl rfl, ⟨rfl, rfl, rfl⟩, rfl⟩

theorem committedEntry_eq_some {removeEmpty : Bool} {account : Option Account}
    {stored : Option AccountRecord}
    (committed : committedEntry removeEmpty account stored = some entry) :
    (account = none ∧ stored = some entry) ∨
      ∃ x, account = some x ∧ ((x.isUnchanged ∧ stored = some entry) ∨
        (x.isAlive ∧ entry = x.toRecord)) := by
  cases account with
  | none => exact .inl ⟨rfl, committed⟩
  | some x =>
    refine .inr ⟨x, rfl, ?_⟩
    simp only [committedEntry, commitEntry, map_some] at committed
    split at committed
    · cases committed
    · split at committed
      · split at committed
        · rename_i alive
          cases committed
          exact .inr ⟨alive, rfl⟩
        · cases committed
      · rename_i clean
        exact .inl ⟨by simpa [Account.isDirty] using clean, committed⟩

section

variable (succeeded : Succeeded ctx env tx s paid entered f ran)
include succeeded

theorem Succeeded.contract (idle : s.Idle) (code : entry.code ≠ [])
    (stored : committedEntry (decide (eip158ForkBlock ≤ env.number))
      ((deletedState ctx env tx ran).account a) (s.trie a) = some entry) :
    a ∉ ran.state.deleteAddresses ∧ a ∉ ran.sub.suicides ∧ ran.state.code a ≠ [] ∧
      ran.state.balance a = entry.balance := by
  have coherent : (deletedState ctx env tx ran).Coherent := coherent_deletedState succeeded.coherent
  have tries := (deletedState_rest ctx env tx ran).2.2
  have faithful := (faithful_saved idle succeeded.entry).steps succeeded.entry.coherent
    succeeded.steps
  rcases committedEntry_eq_some stored with ⟨absent, found⟩ | ⟨x, found, source⟩
  · have missing := (absent_of_account_none coherent absent).2
    rw [tries.trie, succeeded.store.trie, found] at missing
    cases missing
  · rw [account_deletedState] at found
    split at found
    · -- a deleted account is neither alive nor unchanged
      obtain ⟨y, _, rfl⟩ := map_eq_some_iff.1 found
      rcases source with ⟨unchanged, _⟩ | ⟨alive, _⟩
      · cases unchanged
      · cases alive
    · rename_i spared
      obtain ⟨unlisted, notSuicide⟩ := not_or.1 spared
      have notSender : a ≠ tx.sender := fun same => unlisted (same ▸ succeeded.deletes.1)
      have notAuthor : a ≠ env.author := fun same => unlisted (same ▸ succeeded.deletes.2)
      have here : ran.state.account a = some x ∧ x.code ≠ [] ∧ x.balance = entry.balance := by
        rcases source with ⟨unchanged, old⟩ | ⟨_, rfl⟩
        · have here := (revised_addBalance ..).unchanged ((revised_addBalance ..).unchanged found unchanged)
            unchanged
          obtain ⟨record, stored', balance, code'⟩ := faithful a x here unchanged
          rw [succeeded.store.trie, old, some.injEq] at stored'
          subst stored'
          exact ⟨here, code' ▸ code, balance⟩
        · exact ⟨account_paidState_of_code notSender notAuthor found code, code, rfl⟩
      obtain ⟨here, code, balance⟩ := here
      refine ⟨unlisted, notSuicide, ?_, ?_⟩
      · rw [ArtaxState.code, here]
        exact code
      · rw [ArtaxState.balance, here]
        exact balance

theorem Succeeded.committable (idle : s.Idle) :
    (recordVins ctx tx (deletedState ctx env tx ran)).Coherent ∧
      (recordVins ctx tx (deletedState ctx env tx ran)).VinsAlive := by
  obtain ⟨_, tries, missing⟩ := recordVins_rest ctx tx (deletedState ctx env tx ran)
  have deleted := (deletedState_rest ctx env tx ran).2.2
  constructor
  · intro b known
    rw [tries.trie]
    have coherent : (deletedState ctx env tx ran).Coherent :=
      coherent_deletedState succeeded.coherent
    exact coherent b (missing ▸ known)
  · intro b v held
    rw [tries.stateUTXO, deleted.stateUTXO, succeeded.store.stateUTXO] at held
    exact idle.vinsAlive b v held

theorem Succeeded.mirrored (idle : s.Idle) (mirrored : s.Mirrored) (keeps : KeepsBooks ctx env tx s)
    (performed : Performed ctx env tx (prepare ctx env tx s) entered f ran) :
    ((recordVins ctx tx (deletedState ctx env tx ran)).commitAll env).Mirrored := by
  intro a entry stored code
  obtain ⟨accounts, tries, _⟩ := recordVins_rest ctx tx (deletedState ctx env tx ran)
  obtain ⟨coherent, alive⟩ := succeeded.committable idle
  have deleted := (deletedState_rest ctx env tx ran).2.2
  have committed := trie_commitAll coherent env a
  rw [stored, accounts, tries.trie, deleted.trie, succeeded.store.trie] at committed
  obtain ⟨unlisted, notSuicide, hasCode, balance⟩ := succeeded.contract idle code committed.symm
  rw [stateUTXO_commitAll alive env a]
  apply Holds.filter
  have notSender : a ≠ tx.sender := fun same => unlisted (same ▸ succeeded.deletes.1)
  have source := succeeded.steps.codes (lawful_books idle) succeeded.entry.coherent
    (codes_saved idle succeeded.entry mirrored keeps.stored) a hasCode
  by_cases party : a ∈ parties (condensed ctx env tx ran).transfers
  · have held := holds_recordVins (succeeded.solvent idle keeps.sender performed) notSender party
    have left := (succeeded.newBalance_eq idle keeps.sender performed source party).2
    rw [← balance, ← left]
    exact held
  · -- an address that takes no part keeps its output and its balance
    have balanced := (succeeded.booked idle).balanced a
    obtain ⟨nothing, nothing'⟩ := flows_of_not_mem party
    rw [← transfers_condensed ctx env tx ran, nothing, nothing'] at balanced
    have same : ran.state.balance a = s.balance a := by
      have saved := balance_saved idle succeeded.entry keeps.sender a
      rw [if_neg notSender] at saved
      rw [← saved]
      exact eq_of_toNat_eq balanced
    rw [vin_recordVins_of_not_party party, vin_deletedState, if_neg (not_or.2 ⟨unlisted, notSuicide⟩),
      succeeded.vin idle, ← balance, same]
    exact (source.resolve_left notSender).1

end

/-- A successful execution that keeps the books keeps outputs and balances in step. -/
theorem execution_keeps_mirrored (idle : s.Idle) (mirrored : s.Mirrored)
    (version : tx.version = .evmDefault) (keeps : KeepsBooks ctx env tx s) {state : ArtaxState}
    {res : ExecutionResult} {logs : List LogEntry} {made : CTransaction}
    (finished : tryBlock ctx env tx .committed (prepare ctx env tx s) =
      some (.finished state res logs made)) (success : res.excepted = .none) :
    ∃ after, execute ctx env tx .committed s = some (after, ⟨reportAddress tx res, logs, made⟩) ∧
      after.Mirrored := by
  obtain ⟨entered, f, ran, performed, concluded⟩ := tryBlock_finished finished
  obtain ⟨rfl, ⟨succeeded, rfl, _⟩ | ⟨failed, _⟩⟩ := conclude_finished concluded
  · obtain ⟨paid, succeeded⟩ := succeeded_of_performed idle mirrored keeps performed succeeded
    have kept := succeeded.mirrored idle mirrored keeps performed
    exact ⟨_, execute_finished version finished, kept.reset⟩
  · exact absurd success failed

/-! ## Two contracts -/

theorem twoContracts_cases (found : twoContracts.trie a = some entry) :
    (a = 7 ∧ entry.balance = 5#256) ∨ (a = 8 ∧ entry.balance = 0#256) := by
  simp only [twoContracts] at found
  split at found
  · cases found
    exact .inl ⟨‹_›, rfl⟩
  · split at found
    · cases found
      exact .inr ⟨‹_›, rfl⟩
    · cases found

theorem mirrored_twoContracts : twoContracts.Mirrored := by
  intro a entry found _
  rcases twoContracts_cases found with ⟨rfl, balance⟩ | ⟨rfl, balance⟩
  · rw [balance]
    exact ⟨_, rfl, rfl, rfl⟩
  · rw [balance]
    exact nofun

theorem total_twoContracts : total twoContracts.ledger = 5 := by
  have coins : twoContracts.ledger = fun a => if a = 7 then 5 else 0 := by
    funext a
    rw [ledger, balance, idle_twoContracts.account]
    by_cases seven : a = 7
    · simp [twoContracts, seven]
    · by_cases eight : a = 8 <;> simp [twoContracts, seven, eight]
  rw [coins, total]
  exact Finset.sum_ite_eq_of_mem' Finset.univ (7 : Address) (fun _ => 5) (Finset.mem_univ 7)

def onePayment : Trace := .call .call 8 5#256 true (.stop []) (.stop [])

theorem keepsBooks_onePayment :
    KeepsBooks (.sample onePayment) sampleEnv sampleCall twoContracts := by
  refine ⟨fun a entry found _ => ?_, rfl, fun trace f entered outer => ?_, nofun,
    fun trace f entered outer => ?_⟩
  · rcases twoContracts_cases found with ⟨rfl, _⟩ | ⟨rfl, _⟩ <;> decide
  · cases outer
    exact ⟨nofun, nofun⟩
  · cases outer
    rw [total_twoContracts]
    decide

/-- The payment is mirrored by an output of contract 8. -/
theorem onePayment_keeps_mirrored :
    ∃ after result, execute (.sample onePayment) sampleEnv sampleCall .committed twoContracts =
        some (after, result) ∧ after.Mirrored ∧ (after.trie 8).map AccountRecord.balance = some 5#256 := by
  obtain ⟨after, executed, mirrored⟩ := execution_keeps_mirrored idle_twoContracts
    mirrored_twoContracts rfl keepsBooks_onePayment rfl rfl
  refine ⟨after, _, executed, mirrored, ?_⟩
  cases executed
  rfl

def repeatedPayment : Trace :=
  .call .call 8 5#256 true (.exception .outOfGas) onePayment

def leftAtSeven : Attempt → Option (TransactionException × Option (U256 × Bytes) × Option Vin)
  | .finished state res _ _ => some (res.excepted,
      (state.trie 7).map fun entry => (entry.balance, entry.code), state.stateUTXO 7)
  | .thrown .. => none

/-- The transfer of the rolled back frame stays on the list, contract 7 counts as overdrawn, and it
keeps an output although it has no coins left. -/
theorem repeatedPayment_breaks_mirror :
    ∃ state res logs made, tryBlock (.sample repeatedPayment) sampleEnv sampleCall .committed
        (prepare (.sample repeatedPayment) sampleEnv sampleCall twoContracts) =
          some (.finished state res logs made) ∧ res.excepted = .none ∧ ¬ state.Mirrored := by
  have left : (tryBlock (.sample repeatedPayment) sampleEnv sampleCall .committed
      (prepare (.sample repeatedPayment) sampleEnv sampleCall twoContracts)).bind leftAtSeven =
        some (.none, some (0#256, [1]), some ⟨3, 0, 5#256, true⟩) := by
    decide +kernel
  generalize tryBlock (.sample repeatedPayment) sampleEnv sampleCall .committed
    (prepare (.sample repeatedPayment) sampleEnv sampleCall twoContracts) = attempt at left
  match attempt with
  | none => cases left
  | some (.thrown ..) => cases left
  | some (.finished state res logs made) =>
    simp only [bind_some, leftAtSeven, some.injEq, Prod.mk.injEq] at left
    obtain ⟨success, stored, output⟩ := left
    refine ⟨state, res, logs, made, rfl, success, fun mirrored => ?_⟩
    obtain ⟨entry, found, same⟩ := map_eq_some_iff.1 stored
    simp only [Prod.mk.injEq] at same
    have held := mirrored 7 entry found (by simp [same.2])
    rw [Holds, if_pos same.1] at held
    cases held _ output

end ArtaxState
end Artax
