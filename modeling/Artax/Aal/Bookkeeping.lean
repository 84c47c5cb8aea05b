import Artax.Aal.Conservation
import Artax.Evm.History
import Artax.Util.Ledger

/-!
# Recorded transfers and balances

The transfer list is not rolled back with the accounts. As long as no frame is rolled back after it
recorded a transfer, what an account has and has sent is what it started with and received.
-/

namespace Artax

open Executive List Function
open Util.Ledger (total le_total total_update Moved)

namespace ArtaxState

def ledger (s : ArtaxState) (a : Address) : Nat := (s.balance a).toNat

/-! ## What operations do to balances -/

variable {s t entered : ArtaxState} {a b source target resolved creator : Address} {value : U256}
  {m : Monitor} {start : Address → Nat} {se : SealEngine} {env : EnvInfo} {p : CallParameters}
  {made : Executive.Creation}

theorem balance_congr (same : t.account a = s.account a) :
    t.balance a = s.balance a := by
  rw [balance, balance, same]

theorem balance_addBalance (s : ArtaxState) (b : Address) (amount : U256) (a : Address) :
    (s.addBalance b amount).1.balance a =
      if a = s.creditAddress b then s.balance a + amount else s.balance a := by
  by_cases same : a = s.creditAddress b
  · rw [if_pos same, balance, account_addBalance, if_pos same, same]
    unfold credited balance
    cases found : s.account b with
    | some x => rw [creditAddress_of_some found, found]; rfl
    | none =>
      rw [account_creditAddress_of_none found]
      exact (BitVec.zero_add amount).symm
  · rw [if_neg same]
    exact balance_congr (by rw [account_addBalance, if_neg same])

theorem balance_subBalance (taken : s.subBalance b value = some t) (a : Address) :
    value ≤ s.balance b ∧ t.balance a = if a = b then s.balance a - value else s.balance a := by
  obtain ⟨zero, rfl⟩ | ⟨_, x, found, covered, rfl⟩ := subBalance_eq_some_iff.1 taken
  · subst zero
    refine ⟨BitVec.le_def.2 (Nat.zero_le _), ?_⟩
    split
    · exact (BitVec.sub_zero _).symm
    · rfl
  · refine ⟨by rw [balance, found]; exact covered, ?_⟩
    rw [balance_addBalance, creditAddress_of_some found]
    split
    · bv_omega
    · rfl

theorem balance_putAccount {y : Account} (same : y.balance = s.balance b) (change : Change)
    (a : Address) :
    ((s.putAccount b y).log change).balance a = s.balance a := by
  by_cases here : a = b
  · rw [balance, account_log, account_putAccount, if_pos here, here]
    exact same
  · exact balance_congr (by rw [account_log, account_putAccount, if_neg here])

theorem balance_incNonce (active : s.Active b) (a : Address) :
    (s.incNonce b).balance a = s.balance a := by
  obtain ⟨x, found, _⟩ := active
  rw [incNonce_of_some found]
  exact balance_putAccount (by simp [balance, found, Account.incNonce]) _ a

theorem Restores.balance (restored : t.Restores s) (a : Address) :
    t.balance a = s.balance a := by
  unfold ArtaxState.balance
  rcases restored.account_cases a with ⟨here, there⟩ | ⟨y, x, here, there, stands⟩
  · rw [here, there]
  · rw [here, there]
    exact stands.balance

theorem moved_transferBalance (fits : total s.ledger < 2 ^ 256)
    (moved : s.transferBalance source target value = some (t, resolved)) :
    Moved s.ledger t.ledger source resolved value.toNat := by
  obtain ⟨u, taken, rfl, rfl⟩ := transferBalance_eq_some_iff.1 moved
  have covered : value.toNat ≤ s.ledger source := (balance_subBalance taken source).1
  -- taking the value cannot wrap, and what is left in total leaves room for it elsewhere
  have after : u.ledger = update s.ledger source (s.ledger source - value.toNat) := by
    funext a
    obtain ⟨_, left⟩ := balance_subBalance taken a
    by_cases same : a = source
    · subst same
      rw [update_self, ledger, left, if_pos rfl, BitVec.toNat_sub_of_le covered]
      rfl
    · rw [update_of_ne same, ledger, left, if_neg same]
      rfl
  have room : u.ledger (u.creditAddress target) + value.toNat < 2 ^ 256 := by
    have rest := total_update s.ledger source (s.ledger source - value.toNat)
    have part := le_total u.ledger (u.creditAddress target)
    rw [← after] at rest
    omega
  refine ⟨covered, ?_⟩
  rw [← after]
  funext a
  have given := balance_addBalance u target value a
  by_cases same : a = u.creditAddress target
  · rw [if_pos same] at given
    rw [same, update_self]
    change ((u.addBalance target value).1.balance (u.creditAddress target)).toNat = _
    rw [← same, given, BitVec.toNat_add, same]
    exact Nat.mod_eq_of_lt room
  · rw [if_neg same] at given
    rw [update_of_ne same]
    exact congrArg BitVec.toNat given

/-! ## The books -/

/-- The recorded transfers account for every balance, and are all by accounts that may send. -/
structure Booked (m : Monitor) (start : Address → Nat) (s : ArtaxState) : Prop where
  total_eq : total s.ledger = total start
  balanced : ∀ a, s.ledger a + sentNat s.transfers a = start a + receivedNat s.transfers a
  bounded : ∀ ti ∈ s.transfers, ti.value.toNat ≤ total start
  sources : ∀ ti ∈ s.transfers, m.source ti.source

theorem Booked.congr (booked : Booked m start s) (balances : ∀ a, t.balance a = s.balance a)
    (transfers : t.transfers = s.transfers) : Booked m start t := by
  have same : t.ledger = s.ledger := funext fun a => congrArg BitVec.toNat (balances a)
  exact ⟨same ▸ booked.total_eq, by rw [same, transfers]; exact booked.balanced,
    by rw [transfers]; exact booked.bounded, by rw [transfers]; exact booked.sources⟩

theorem Booked.transfer {m : Monitor} {start : Address → Nat} {s t : ArtaxState}
    {source target resolved : Address} {value : U256} (booked : Booked m start s)
    (fits : total start < 2 ^ 256) (allowed : value ≠ 0#256 → m.source source)
    (moved : s.transferBalance source target value = some (t, resolved)) :
    Booked m start t := by
  have move := moved_transferBalance (by rw [booked.total_eq]; exact fits) moved
  have recorded := transfers_transferBalance moved
  by_cases zero : value = 0#256
  · rw [if_pos zero] at recorded
    subst zero
    refine ⟨move.total_eq.trans booked.total_eq, fun a => ?_, ?_, ?_⟩
    · have same := move.balance_eq a
      have before := booked.balanced a
      simp only [BitVec.toNat_ofNat, Nat.zero_mod, ite_self, Nat.add_zero] at same
      rw [recorded, same]
      exact before
    · rw [recorded]
      exact booked.bounded
    · rw [recorded]
      exact booked.sources
  · rw [if_neg zero] at recorded
    refine ⟨move.total_eq.trans booked.total_eq, fun a => ?_, ?_, ?_⟩
    · have change := move.balance_eq a
      have before := booked.balanced a
      rw [recorded]
      simp only [sentNat, receivedNat, map_append, map_cons, map_nil,
        sum_append, sum_cons, sum_nil, Nat.add_zero] at before ⊢
      omega
    · rw [recorded]
      intro ti member
      rcases mem_append.1 member with old | new
      · exact booked.bounded ti old
      · rw [mem_singleton.1 new]
        exact move.value_le_total.trans_eq booked.total_eq
    · rw [recorded]
      intro ti member
      rcases mem_append.1 member with old | new
      · exact booked.sources ti old
      · rw [mem_singleton.1 new]
        exact allowed zero

theorem Booked.step {m : Monitor} {start : Address → Nat} {s t : ArtaxState}
    (booked : Booked m start s) (fits : total start < 2 ^ 256) (step : Step m s t) :
    Booked m start t := by
  cases step with
  | @store b active key value =>
    obtain ⟨x, found, _⟩ := active
    exact booked.congr (balance_putAccount (y := ((s.account b).getD {}).setStorage key value)
      (by simp [balance, found, Account.setStorage]) _) rfl
  | note b =>
    exact booked.congr (fun a => balance_congr (account_noteUnused s b a)) (transfers_noteUnused s b)
  | touch b =>
    refine booked.congr (fun a => ?_) (transfers_addBalance s b _)
    rw [balance_addBalance, BitVec.add_zero, ite_self]
  | transfer allowed moved => exact booked.transfer fits allowed moved
  | nonce active => exact booked.congr (balance_incNonce active) (incNonce_rest s _).2.1
  | @deploy b dirty _ _ code =>
    obtain ⟨x, cached, _⟩ := dirty
    rw [setNewCode_of_cached cached]
    exact booked.congr (balance_putAccount (y := x.setNewCode code)
      (by simp [balance, account_of_cached cached, Account.setNewCode]) _) rfl

theorem Booked.steps
    (reverts : ∀ saved left, m.revert saved left → left.transfers = saved.transfers)
    (booked : Booked m start s) (fits : total start < 2 ^ 256) (coherent : s.Coherent)
    (steps : Steps m s t) : Booked m start t := by
  induction steps with
  | refl => exact booked
  | tail _ step ih => exact (ih reverts booked coherent).step fits step
  | revert earlier frame allowed ih _ =>
    have restored := frame.restores (earlier.journaled coherent).coherent
    have recorded := reverts _ _ allowed
    exact (ih reverts booked coherent).congr restored.balance recorded

theorem Booked.transferTotal_le (booked : Booked m start s) :
    transferTotal s.transfers ≤ s.transfers.length * total start := by
  have bound := sum_le_card_nsmul (s.transfers.map fun ti => ti.value.toNat) (total start)
    fun value member => by
      obtain ⟨ti, recorded, rfl⟩ := mem_map.1 member
      exact booked.bounded ti recorded
  rw [length_map] at bound
  exact bound

theorem Booked.sentNat_eq_zero (booked : Booked m start s) (notSource : ¬ m.source a) :
    sentNat s.transfers a = 0 := by
  refine sum_eq_zero fun value member => ?_
  obtain ⟨ti, recorded, rfl⟩ := mem_map.1 member
  refine if_neg fun same : ti.source = a => notSource ?_
  rw [← same]
  exact booked.sources ti recorded

/-! ## How many transfers a run records -/

theorem transfers_length_transferBalance
    (moved : s.transferBalance source target value = some (t, resolved)) :
    t.transfers.length ≤ s.transfers.length + 1 := by
  rw [transfers_transferBalance moved]
  split
  · exact Nat.le_succ _
  · rw [length_append]
    exact Nat.le_refl _

theorem transfers_length_call {gasCovers ext : Bool}
    (called : call se env p gasCovers s = some (entered, ext)) :
    entered.transfers.length ≤ s.transfers.length + 1 := by
  unfold call at called
  simp only [] at called
  split at called
  · cases called
    split
    · rw [transfers_addBalance]
      exact Nat.le_succ _
    · exact Nat.le_succ _
  · split at called
    · cases called
    · rename_i moved
      cases called
      exact (transfers_length_transferBalance moved).trans_eq (by rw [transfers_noteUnused])

theorem transfers_call {gasCovers : Bool}
    (called : call se env p gasCovers s = some (entered, true)) :
    ∃ resolved, entered.transfers = if p.valueTransfer = 0#256 then s.transfers
      else s.transfers ++ [⟨p.senderAddress, resolved, p.valueTransfer⟩] := by
  unfold call at called
  simp only [] at called
  split at called
  · cases called
  · split at called
    · cases called
    · rename_i t resolved moved
      simp only [Option.some.injEq, Prod.mk.injEq] at called
      refine ⟨resolved, ?_⟩
      rw [← called.1, transfers_transferBalance moved, transfers_noteUnused]

theorem transfers_openAccount (opened : openAccount se env creator 0#256 s = some made) :
    made.state.transfers = s.transfers := by
  unfold openAccount at opened
  simp only [] at opened
  split at opened
  · cases opened
  · rename_i t resolved moved
    cases opened
    have kept := transfers_transferBalance moved
    rw [if_pos rfl, (incNonce_rest s creator).2.1] at kept
    split
    · rw [(incNonce_rest _ _).2.1]
      exact kept
    · exact kept

theorem transfers_create {hasInit : Bool}
    (created : create se env creator 0#256 hasInit s = some made) :
    made.state.transfers = s.transfers := by
  unfold create at created
  split at created
  · cases created
  · rename_i opening opened
    cases created
    have kept := transfers_openAccount opened
    split
    · exact kept
    · exact kept

end ArtaxState

def Trace.moves : Trace → Nat
  | .stop _ | .exception _ => 0
  | .suicide _ => 1
  | .sstore _ _ rest | .log _ _ rest => rest.moves
  | .call _ _ _ _ inner rest => 1 + inner.moves + rest.moves
  | .create _ inner rest => inner.moves + rest.moves

namespace ArtaxState

theorem transfers_length_run {se : SealEngine} {env : EnvInfo} (trace : Trace) {f : Frame}
    {s : ArtaxState} {sub : SubState} {outcome : Outcome}
    (ran : run se env trace f s sub = some outcome) :
    outcome.state.transfers.length ≤ s.transfers.length + trace.moves := by
  induction trace generalizing f s sub outcome with
  | stop _ | exception _ =>
    cases ran
    exact Nat.le_refl _
  | suicide dest =>
    simp only [run] at ran
    split at ran
    · cases ran
    · rename_i moved
      cases ran
      exact (transfers_length_transferBalance moved).trans_eq (by rw [transfers_noteUnused]; rfl)
  | sstore key value rest ih =>
    have later := ih ran
    exact later
  | log topics data rest ih => exact ih ran
  | call op codeAddress value gasCovers inner rest ihInner ihRest =>
    simp only [run] at ran
    simp only [Trace.moves]
    split at ran
    · split at ran
      · cases ran
      · rename_i entered called
        have enter := transfers_length_call called
        have later := ihRest ran
        omega
      · rename_i entered called
        have enter := transfers_length_call called
        split at ran
        · cases ran
        · rename_i left child output ended
          have inside := ihInner ended
          have later := ihRest ran
          simp only [Outcome.state] at inside
          omega
        · rename_i left e ended
          have inside := ihInner ended
          have later := ihRest ran
          simp only [Outcome.state] at inside
          simp only [rollback] at later
          omega
    · have later := ihRest ran
      omega
  | create hasInit inner rest ihInner ihRest =>
    simp only [run] at ran
    simp only [Trace.moves]
    split at ran
    · split at ran
      · cases ran
      · rename_i made created
        have enter := congrArg length (transfers_create created)
        split at ran
        · split at ran
          · cases ran
          · rename_i left child output ended
            have inside := ihInner ended
            have later := ihRest ran
            simp only [Outcome.state] at inside
            simp only [setNewCode, log, putAccount] at later
            omega
          · rename_i left e ended
            have inside := ihInner ended
            have later := ihRest ran
            simp only [Outcome.state] at inside
            simp only [rollback] at later
            omega
        · have later := ihRest ran
          omega
    · have later := ihRest ran
      omega

end ArtaxState
end Artax
