import Artax.Aal.ByteCodeExec
import Artax.Aal.Settled

/-!
# States that executions leave behind

Every execution leaves nothing pending and nothing of its own in the account cache; below
`nFixUTXOCacheHFHeight` an exception leaves outputs marked as dead. Two such states over the same
tries and outputs execute every transaction alike.
-/

namespace Artax.ArtaxState

variable {ctx : ExecutionContext} {env : EnvInfo} {tx : ArtaxTransaction} {s t : ArtaxState}

/-! ## Through the try block -/

variable {entered : Executive.Entered} {ran : Executive.Ran} {p : Permanence} {logs : List LogEntry}
  {state : ArtaxState} {res : ExecutionResult} {made : CTransaction}

section

variable (coherent : s.Coherent) (tidy : s.Tidy)
include coherent tidy

theorem grown_enter (executed : Executive.execute ctx env tx s = some entered) :
    ∃ saved, Grown s saved ∧ entered.savepoint = saved.savepoint ∧ Grown saved entered.state ∧
      ∀ f, entered.frame = some f → entered.state.addressInUse f.myAddress := by
  unfold Executive.execute at executed
  split at executed
  · cases executed
  · rename_i paid taken
    have pays := grown_subBalance coherent tidy taken
    have counted := grown_incNonce pays.coherent pays.tidy tx.sender
    refine ⟨paid.incNonce tx.sender, pays.trans counted, ?_⟩
    split at executed
    · unfold Executive.enterCreate at executed
      split at executed
      · cases executed
      · rename_i made created
        obtain ⟨height, grown, there⟩ := grown_executiveCreate pays.coherent pays.tidy created
        cases executed
        refine ⟨height, grown, fun f framed => ?_⟩
        split at framed
        · cases framed
        · cases framed
          exact there
    · unfold Executive.enterCall at executed
      simp only [] at executed
      split at executed
      · cases executed
      · rename_i called ext entering
        have enter := grown_call counted.coherent counted.tidy entering
        cases executed
        refine ⟨rfl, enter, fun f framed => ?_⟩
        split at framed
        · rename_i opened
          cases framed
          subst opened
          exact enter.used _ (addressInUse_of_hasCode (hasCode_of_call entering))
        · cases framed

theorem Performed.grown {f : Frame} (performed : Performed ctx env tx s entered f ran) :
    ∃ saved, Grown s saved ∧ entered.savepoint = saved.savepoint ∧ Grown saved ran.state := by
  obtain ⟨saved, before, height, enter, there⟩ := grown_enter coherent tidy performed.executed
  have here := there f performed.frame
  refine ⟨saved, before, height, ?_⟩
  by_cases success : ran.excepted = .none
  · obtain ⟨left, output, ended, last⟩ := go_succeeded performed.went success
    have inside := run_grown _ enter.coherent enter.tidy here ended
    rw [last]
    split
    · exact (enter.trans inside).trans
        (grown_setNewCode inside.coherent inside.tidy (inside.used _ here) output)
    · exact enter.trans inside
  · obtain ⟨left, e, ended, rolled, _⟩ := go_excepted performed.went success
    have inside := run_grown _ enter.coherent enter.tidy here ended
    rw [rolled, height]
    exact (enter.trans inside).rollback.1

theorem grown_of_thrown {left : ArtaxState} {e : TransactionException} {limit : Bool}
    (thrown : tryBlock ctx env tx p s = some (.thrown left e limit logs)) : Grown s left := by
  unfold tryBlock at thrown
  split at thrown
  · cases thrown
    exact .refl coherent tidy
  · rename_i valid
    split at thrown
    · cases thrown
      exact .refl coherent tidy
    · rename_i initialised
      split at thrown
      · cases thrown
        exact .refl coherent tidy
      · rename_i entered executed
        split at thrown
        · cases thrown
          obtain ⟨saved, before, height, enter, _⟩ := grown_enter coherent tidy executed
          rw [height]
          exact before.trans enter.rollback.1
        · rename_i f frame
          split at thrown
          · cases thrown
          · rename_i ran went
            have performed : Performed ctx env tx s entered f ran :=
              ⟨valid, initialised, executed, frame, went⟩
            obtain ⟨saved, before, height, inside⟩ := performed.grown coherent tidy
            have deleted := inside.trans
              (grown_deletedState ctx env tx inside.coherent inside.tidy)
            have concluded := Option.some.inj thrown
            unfold conclude settle at concluded
            simp only [] at concluded
            split at concluded
            · cases concluded
            · split at concluded
              · split at concluded
                · cases concluded
                  rw [height]
                  exact before.trans deleted.rollback.1
                · cases concluded
              · cases concluded

theorem finished_cases (finished : tryBlock ctx env tx p s = some (.finished state res logs made)) :
    ∃ left, Grown s left ∧
      (p = .reverted ∧ state = left.clearCaches ∨ p = .committed ∧ state = left.commitAll env) := by
  obtain ⟨entered, f, ran, performed, concluded⟩ := tryBlock_finished finished
  obtain ⟨saved, before, _, inside⟩ := performed.grown coherent tidy
  cases p with
  | reverted =>
    have final := grown_finalizeState ctx env tx inside.coherent inside.tidy
    simp only [conclude, Attempt.finished.injEq] at concluded
    exact ⟨_, (before.trans inside).trans final, .inl ⟨rfl, concluded.1.symm⟩⟩
  | committed =>
    have deleted := (before.trans inside).trans
      (grown_deletedState ctx env tx inside.coherent inside.tidy)
    obtain ⟨_, ⟨_, rfl, _⟩ | ⟨_, rfl, _⟩⟩ := conclude_finished concluded
    · have recorded : Grown s (recordVins ctx tx (deletedState ctx env tx ran)) := by
        unfold recordVins
        rw [updateUTXO_eq]
        exact deleted.congr ⟨rfl, rfl, rfl⟩ rfl rfl rfl
      exact ⟨_, recorded, .inr ⟨rfl, rfl⟩⟩
    · exact ⟨_, deleted, .inr ⟨rfl, rfl⟩⟩

end

/-! ## Parked states -/

/-- A state between executions, except that outputs marked as dead may be left in their cache. -/
structure Parked (s : ArtaxState) : Prop where
  coherent : s.Coherent
  clean : ∀ a, s.Clean a
  vinsAlive : s.VinsAlive
  newAddress : s.newAddress = 0
  transfers : s.transfers = []

/-- The cache of outputs holds nothing but what is stored. -/
def VinsClean (s : ArtaxState) : Prop := ∀ a v, s.cacheUTXO a = some v → s.stateUTXO a = some v

theorem Idle.parked (idle : s.Idle) : s.Parked :=
  ⟨idle.coherent, idle.clean, idle.vinsAlive, idle.newAddress, idle.transfers⟩

theorem Parked.tidy (parked : s.Parked) : s.Tidy := by
  intro a missing
  rw [account_of_clean parked.coherent (parked.clean a), parked.coherent a missing]
  rfl

theorem Parked.withDeletes (parked : s.Parked) (deletes : List Address) :
    Parked { s with deleteAddresses := deletes } :=
  ⟨parked.coherent, parked.clean, parked.vinsAlive, parked.newAddress, parked.transfers⟩

theorem execute_cases {res : ResultExecute} (ran : execute ctx env tx p s = some (t, res)) :
    (∃ state r logs made, tryBlock ctx env tx p (prepare ctx env tx s) =
        some (.finished state r logs made) ∧ t = state.reset) ∨
      ∃ left e limit logs, tryBlock ctx env tx p (prepare ctx env tx s) =
        some (.thrown left e limit logs) ∧ t = (catchBlock ctx p left).reset := by
  unfold execute at ran
  split at ran
  · cases ran
  · split at ran
    · cases ran
    · rename_i state r logs made finished
      cases ran
      exact .inl ⟨state, r, logs, made, finished, rfl⟩
    · rename_i left e limit logs thrown
      cases ran
      exact .inr ⟨left, e, limit, logs, thrown, rfl⟩

theorem parked_clearCaches (coherent : s.Coherent) (alive : s.VinsAlive) :
    s.clearCaches.reset.Parked :=
  ⟨coherent, fun _ => .inl rfl, alive, rfl, rfl⟩

theorem parked_commit (coherent : s.Coherent) (tidy : s.Tidy) (alive : s.VinsAlive) :
    (s.commit true).reset.Parked := by
  refine ⟨fun a missing => ?_, fun _ => .inl rfl, alive, rfl, rfl⟩
  have known : s.nonExisting a := missing
  change (s.commit true).trie a = none
  rw [trie_commit coherent, tidy a known]
  exact coherent a known

section

variable (parked : s.Parked) {result : ResultExecute}
  (after : execute ctx env tx p s = some (t, result))
include parked after

/-- What an execution leaves is what has grown from the state before, dropped or committed. -/
theorem Parked.leaves : ∃ left, Grown s left ∧ (t = left.clearCaches.reset ∨
    p ≠ .reverted ∧ (t = (left.commitAll env).reset ∨
      ctx.chainHeight < nFixUTXOCacheHFHeight ∧ t = (left.commit true).reset)) := by
  have prepared := grown_prepare ctx env tx parked.coherent parked.tidy
  rcases execute_cases after with ⟨state, r, logs, made, finished, rfl⟩ |
    ⟨left, e, limit, logs, thrown, rfl⟩
  · obtain ⟨left, grown, ⟨_, rfl⟩ | ⟨rfl, rfl⟩⟩ :=
      finished_cases prepared.coherent prepared.tidy finished
    · exact ⟨left, prepared.trans grown, .inl rfl⟩
    · exact ⟨left, prepared.trans grown, .inr ⟨nofun, .inl rfl⟩⟩
  · have grown := prepared.trans (grown_of_thrown prepared.coherent prepared.tidy thrown)
    unfold catchBlock
    split
    · rename_i early
      exact ⟨_, grown.trans (grown_foldl_kill grown.coherent grown.tidy left.deleteAddresses),
        .inr ⟨early.2, .inr ⟨early.1, rfl⟩⟩⟩
    · exact ⟨left, grown, .inl rfl⟩

theorem Parked.executed : t.Parked := by
  obtain ⟨left, grown, cases⟩ := parked.leaves after
  have alive : left.VinsAlive := fun a v stored =>
    parked.vinsAlive a v (grown.tries.stateUTXO ▸ stored)
  obtain rfl | ⟨_, rfl | ⟨_, rfl⟩⟩ := cases
  · exact parked_clearCaches grown.coherent alive
  · exact (idle_commitAll grown.coherent grown.tidy alive env).parked
  · exact parked_commit grown.coherent grown.tidy alive

theorem Parked.reverted (reverted : p = .reverted) : t.SameTries s ∧ t.VinsClean := by
  obtain ⟨left, grown, rfl | ⟨committed, _⟩⟩ := parked.leaves after
  · exact ⟨⟨grown.tries.trie, grown.tries.stateUTXO, grown.tries.startNonce⟩,
      fun _ _ held => by cases held⟩
  · exact absurd reverted committed

theorem Parked.vinsClean (fixed : nFixUTXOCacheHFHeight ≤ ctx.chainHeight) : t.VinsClean := by
  obtain ⟨left, grown, rfl | ⟨_, rfl | ⟨early, _⟩⟩⟩ := parked.leaves after
  · exact fun _ _ held => by cases held
  · rw [commitAll_eq]
    exact fun _ _ held => by cases held
  · exact absurd early (Int.not_lt.2 fixed)

end

theorem Parked.idle (parked : s.Parked) (clean : s.VinsClean) : s.Idle :=
  ⟨parked.coherent, parked.clean, clean, parked.vinsAlive, parked.newAddress, parked.transfers⟩

theorem parked_fetch (parked : s.Parked) {a : Address} (absent : s.account a = none) :
    (s.fetch a).Parked ∧ (∀ b, (s.fetch a).vin b = s.vin b) ∧
      (s.fetch a).deleteAddresses = s.deleteAddresses := by
  have store := store_fetch s a
  have rest := fetch_rest s a
  have cache := cache_fetch_of_absent parked.coherent absent
  refine ⟨⟨coherent_fetch parked.coherent a, fun b => ?_, fun b v held => ?_,
    rest.1.trans parked.newAddress, rest.2.1.trans parked.transfers⟩, fun b => ?_, rest.2.2⟩
  · unfold ArtaxState.Clean
    rw [cache, store.trie]
    exact parked.clean b
  · rw [store.stateUTXO] at held
    exact parked.vinsAlive b v held
  · rw [vin, vin, store.cacheUTXO, store.stateUTXO]

theorem VinsClean.fetch (clean : s.VinsClean) (a : Address) : (s.fetch a).VinsClean := by
  intro b v held
  rw [(store_fetch s a).cacheUTXO] at held
  rw [(store_fetch s a).stateUTXO]
  exact clean b v held

theorem perform_cases {res : ResultExecute} (ran : ByteCodeExec.perform ctx env p tx s = some (t, res)) :
    s.account tx.receiveAddress = none ∧ t = s.fetch tx.receiveAddress ∨
      execute ctx env tx p s = some (t, res) := by
  unfold ByteCodeExec.perform at ran
  split at ran
  · rename_i unknown
    have free := (Bool.and_eq_true_iff.1 unknown).2
    cases ran
    exact .inl ⟨by simpa [addressInUse] using free, rfl⟩
  · exact .inr ran

theorem perform_clean (parked : s.Parked) (clean : s.VinsClean)
    (fixed : nFixUTXOCacheHFHeight ≤ ctx.chainHeight) {res : ResultExecute}
    (ran : ByteCodeExec.perform ctx env p tx s = some (t, res)) : t.Parked ∧ t.VinsClean := by
  obtain ⟨unused, rfl⟩ | ran := perform_cases ran
  · exact ⟨(parked_fetch parked unused).1, VinsClean.fetch clean _⟩
  · exact ⟨parked.executed ran, parked.vinsClean ran fixed⟩

/-! ## Twins -/

/-- Two parked states over the same tries, with the same outputs and the same delete set. -/
structure Twin (t s : ArtaxState) : Prop where
  left : t.Parked
  right : s.Parked
  tries : t.SameTries s
  vin : ∀ a, t.vin a = s.vin a
  deletes : t.deleteAddresses = s.deleteAddresses

theorem Twin.refl (parked : s.Parked) : s.Twin s :=
  ⟨parked, parked, ⟨rfl, rfl, rfl⟩, fun _ => rfl, rfl⟩

theorem Twin.alike (twin : t.Twin s) : Alike t.changeLog s.changeLog t s where
  trie := twin.tries.trie
  startNonce := twin.tries.startNonce
  stateUTXO := twin.tries.stateUTXO
  vin := twin.vin
  newAddress := twin.left.newAddress.trans twin.right.newAddress.symm
  transfers := twin.left.transfers.trans twin.right.transfers.symm
  deleteAddresses := twin.deletes
  coherent := twin.left.coherent
  coherent' := twin.right.coherent
  caches := fun a => .inr ⟨twin.left.clean a, twin.right.clean a⟩
  log := ⟨[], rfl, rfl, nofun⟩

theorem VinsClean.vin (clean : s.VinsClean) (a : Address) : s.vin a = s.stateUTXO a := by
  unfold ArtaxState.vin
  cases cached : s.cacheUTXO a with
  | none => rfl
  | some v => exact (clean a v cached).symm

theorem Twin.execute (twin : t.Twin s) (ctx : ExecutionContext) (env : EnvInfo)
    (tx : ArtaxTransaction) (p : Permanence) :
    Option.Rel (fun x y => x.1.Twin y.1 ∧ x.2 = y.2)
      (execute ctx env tx p t) (execute ctx env tx p s) := by
  have same := twin.alike.executes twin.right.vinsAlive ctx env tx p
  generalize leftRun : ArtaxState.execute ctx env tx p t = left at same
  generalize rightRun : ArtaxState.execute ctx env tx p s = right at same
  cases same with
  | none => exact .none
  | some same =>
    obtain ⟨⟨result, tries⟩, vin, deletes⟩ := same
    exact .some ⟨⟨twin.left.executed leftRun, twin.right.executed rightRun, tries, vin, deletes⟩, result⟩

end Artax.ArtaxState
