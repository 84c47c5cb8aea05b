import Artax.Aal.Parked
import Artax.Dgp.CallContract

/-!
# Calls between committed executions

`CallContract` runs on the state that blocks commit to. Where the cache of outputs is clean and the
delete set empty, no later execution can tell. Below `nFixUTXOCacheHFHeight` an execution that throws
leaves outputs marked as dead in the cache, and a call drops them.
-/

namespace Artax

open ByteCodeExec ArtaxState
open ArtaxState (Twin VinsClean)

namespace ByteCodeExec

variable {t s : ArtaxState}

/-! ## One transaction after the other -/

theorem perform_twin (twin : t.Twin s) (ctx : ExecutionContext) (env : EnvInfo) (p : Permanence)
    (tx : ArtaxTransaction) :
    Option.Rel (fun x y => x.1.Twin y.1 ∧ x.2 = y.2)
      (perform ctx env p tx t) (perform ctx env p tx s) := by
  unfold perform
  rw [twin.alike.addressInUse]
  split
  · rename_i unknown
    have unused : s.account tx.receiveAddress = none := by
      have free := (Bool.and_eq_true_iff.1 unknown).2
      simpa [addressInUse] using free
    have unused' : t.account tx.receiveAddress = none := by
      rw [twin.alike.account]
      exact unused
    obtain ⟨left, leftVin, leftDeletes⟩ := parked_fetch twin.left unused'
    obtain ⟨right, rightVin, rightDeletes⟩ := parked_fetch twin.right unused
    have tries := (store_fetch t tx.receiveAddress).tries.trans twin.tries
    have back := (store_fetch s tx.receiveAddress).tries
    refine .some ⟨⟨left, right, ⟨tries.trie.trans back.trie.symm,
      tries.stateUTXO.trans back.stateUTXO.symm, tries.startNonce.trans back.startNonce.symm⟩,
      fun a => ?_, ?_⟩, rfl⟩
    · rw [leftVin, rightVin, twin.vin]
    · rw [leftDeletes, rightDeletes, twin.deletes]
  · exact twin.execute ctx env tx p

theorem performByteCode_twin (ctx : ExecutionContext) (env : EnvInfo) (p : Permanence)
    (txs : List ArtaxTransaction) (results : List ResultExecute) {t s : ArtaxState}
    (twin : t.Twin s) :
    Option.Rel (fun x y => x.1 = y.1 ∧ x.2.1.Twin y.2.1 ∧ x.2.2 = y.2.2)
      (performByteCode ctx env p txs t results) (performByteCode ctx env p txs s results) := by
  induction txs generalizing t s results with
  | nil =>
    exact .some ⟨rfl, ⟨twin.left.withDeletes [], twin.right.withDeletes [],
      ⟨twin.tries.trie, twin.tries.stateUTXO, twin.tries.startNonce⟩, twin.vin, rfl⟩, rfl⟩
  | cons tx rest ih =>
    unfold performByteCode
    split
    · exact .some ⟨rfl, twin, rfl⟩
    · refine (perform_twin twin ctx env p tx).casesOn ?_ .none
      rintro ⟨left, res⟩ ⟨right, _⟩ ⟨after, rfl⟩
      exact ih _ after

variable {ctx : ExecutionContext} {env : EnvInfo} {tx : ArtaxTransaction} {res : ResultExecute}

theorem perform_reverted (parked : s.Parked) (clean : s.VinsClean)
    (ran : perform ctx env .reverted tx s = some (t, res)) :
    t.Parked ∧ t.SameTries s ∧ t.VinsClean := by
  obtain ⟨unused, rfl⟩ | ran := perform_cases ran
  · exact ⟨(parked_fetch parked unused).1, (store_fetch s _).tries, VinsClean.fetch clean _⟩
  · exact ⟨parked.executed ran, parked.reverted ran rfl⟩

/-- The transactions all run, or the first one is refused; `ConnectBlock` admits no other lists. -/
def RunsOrRefused (txs : List ArtaxTransaction) : Prop :=
  (∀ tx ∈ txs, tx.version.toRaw = VersionVM.evmDefault.toRaw) ∨
    ∃ tx rest, txs = tx :: rest ∧ tx.version.toRaw ≠ VersionVM.evmDefault.toRaw

theorem performByteCode_clean (fixed : nFixUTXOCacheHFHeight ≤ ctx.chainHeight) {p : Permanence}
    (txs : List ArtaxTransaction) (results : List ResultExecute) {s t : ArtaxState}
    (parked : s.Parked) (clean : s.VinsClean)
    (runs : ∀ tx ∈ txs, tx.version.toRaw = VersionVM.evmDefault.toRaw) {ok : Bool}
    {after : List ResultExecute}
    (ran : performByteCode ctx env p txs s results = some (ok, t, after)) :
    t.Parked ∧ t.VinsClean ∧ t.deleteAddresses = [] := by
  induction txs generalizing s results with
  | nil =>
    cases ran
    exact ⟨parked.withDeletes [], clean, rfl⟩
  | cons tx rest ih =>
    unfold performByteCode at ran
    rw [if_neg (not_not.2 (runs tx (List.mem_cons_self ..)))] at ran
    split at ran
    · cases ran
    · rename_i u res performed
      obtain ⟨parked, clean⟩ := perform_clean parked clean fixed performed
      exact ih _ parked clean (fun tx member => runs tx (List.mem_cons_of_mem _ member)) ran

end ByteCodeExec

/-! ## Interleavings -/

/-- What is run on the global state: the transactions of a block, or a call. -/
inductive Command where
  | commit (ctx : ExecutionContext) (env : EnvInfo) (txs : List ArtaxTransaction)
  | callContract (ctx : ExecutionContext) (env : EnvInfo) (addrContract : Address) (opcode : Bytes)
      (sender : Address) (gasLimit : UInt64)

structure Committed where
  ok : Bool
  results : List ResultExecute
  outcome : Option ByteCodeExecResult
  trie : Address → Option AccountRecord
  stateUTXO : Address → Option Vin

namespace Command

def perform : Command → ArtaxState → Option (Bool × ArtaxState × List ResultExecute)
  | commit ctx env txs, s => performByteCode ctx env .committed txs s []
  | callContract ctx env addrContract opcode sender gasLimit, s =>
    performByteCode ctx env .reverted
      [DgpNode.callTransaction addrContract opcode sender gasLimit] s []

def isCall : Command → Bool
  | commit .. => false
  | callContract .. => true

def observe : Command → Bool → ArtaxState → List ResultExecute → List Committed
  | commit ctx _ txs, ok, s, results =>
    [⟨ok, results, if ok then processingResults ctx (txs.zip results) {} else none,
      s.trie, s.stateUTXO⟩]
  | callContract .., _, _, _ => []

/-- Run commands one after the other: what is observed of the committed ones, and the state left;
`none` where the process ends. -/
def runAll : List Command → ArtaxState → Option (List Committed × ArtaxState)
  | [], s => some ([], s)
  | c :: rest, s =>
    match c.perform s with
    | none => none
    | some (ok, t, results) =>
      match runAll rest t with
      | none => none
      | some (done, u) => some (c.observe ok t results ++ done, u)

def omitCalls (commands : List Command) : List Command := commands.filter fun c => !c.isCall

/-- Every call returns, and finds an empty delete set and a clean cache of outputs. -/
def QuietCalls : List Command → ArtaxState → Prop
  | [], _ => True
  | c :: rest, s =>
    (c.isCall = true → s.VinsClean ∧ s.deleteAddresses = [] ∧ (c.perform s).isSome = true) ∧
      ∀ ok t results, c.perform s = some (ok, t, results) → QuietCalls rest t

def CallsReturn : List Command → ArtaxState → Prop
  | [], _ => True
  | c :: rest, s =>
    (c.isCall = true → (c.perform s).isSome = true) ∧
      ∀ ok t results, c.perform s = some (ok, t, results) → CallsReturn rest t

/-- A committed command at or above `nFixUTXOCacheHFHeight`, with a list that `ConnectBlock`
admits. -/
def Fixed : Command → Prop
  | commit ctx _ txs => nFixUTXOCacheHFHeight ≤ ctx.chainHeight ∧ ByteCodeExec.RunsOrRefused txs
  | callContract .. => True

theorem perform_call {c : Command} (isCall : c.isCall) {t s u : ArtaxState}
    (twin : t.Twin s) (clean : t.VinsClean) (fresh : t.deleteAddresses = []) {ok : Bool}
    {results : List ResultExecute} (ran : c.perform t = some (ok, u, results)) :
    u.Twin s ∧ u.VinsClean ∧ u.deleteAddresses = [] := by
  cases c with
  | commit => cases isCall
  | callContract ctx env addrContract opcode sender gasLimit =>
    simp only [perform, performByteCode] at ran
    split at ran
    · rename_i refused
      exact absurd rfl refused
    · split at ran
      · cases ran
      · rename_i v res performed
        obtain ⟨parked, tries, cleaned⟩ := perform_reverted twin.left clean performed
        cases ran
        refine ⟨⟨parked.withDeletes [], twin.right, ?_, fun a => ?_, fresh.symm.trans twin.deletes⟩,
          cleaned, rfl⟩
        · have both := tries.trans twin.tries
          exact ⟨both.trie, both.stateUTXO, both.startNonce⟩
        · rw [← twin.vin, clean.vin, ← tries.stateUTXO]
          exact cleaned.vin a

variable (commands : List Command)

theorem quietCalls_of_fixed {s : ArtaxState} (parked : s.Parked) (clean : s.VinsClean)
    (fresh : s.deleteAddresses = []) (fixed : ∀ c ∈ commands, c.Fixed)
    (returns : CallsReturn commands s) : QuietCalls commands s := by
  induction commands generalizing s with
  | nil => trivial
  | cons c rest ih =>
    refine ⟨fun isCall => ⟨clean, fresh, returns.1 isCall⟩, fun ok t results ran => ?_⟩
    have later : ∀ c ∈ rest, c.Fixed := fun c member => fixed c (List.mem_cons_of_mem _ member)
    have back := returns.2 ok t results ran
    have here := fixed c (List.mem_cons_self ..)
    cases kind : c.isCall with
    | true =>
      obtain ⟨twin, cleaned, emptied⟩ := perform_call kind (Twin.refl parked) clean fresh ran
      exact ih twin.left cleaned emptied later back
    | false =>
      cases c with
      | callContract => cases kind
      | commit ctx env txs =>
        obtain ⟨high, runs | ⟨tx, others, rfl, refused⟩⟩ := here
        · obtain ⟨parked, clean, fresh⟩ :=
            performByteCode_clean high txs [] parked clean runs ran
          exact ih parked clean fresh later back
        · simp only [perform, performByteCode, if_pos refused] at ran
          cases ran
          exact ih parked clean fresh later back

def SameRun (x y : List Committed × ArtaxState) : Prop := x.1 = y.1 ∧ x.2.SameTries y.2

theorem runAll_omitCalls {t s : ArtaxState} (twin : t.Twin s) (quiet : QuietCalls commands t) :
    Option.Rel SameRun (runAll commands t) (runAll (omitCalls commands) s) := by
  induction commands generalizing t s with
  | nil => exact .some ⟨rfl, twin.tries⟩
  | cons c rest ih =>
    cases kind : c.isCall with
    | true =>
      obtain ⟨clean, fresh, returns⟩ := quiet.1 kind
      obtain ⟨⟨ok, u, results⟩, ran⟩ := Option.isSome_iff_exists.1 returns
      have after := (perform_call kind twin clean fresh ran).1
      have same := ih after (quiet.2 ok u results ran)
      have omitted : omitCalls (c :: rest) = omitCalls rest := by simp [omitCalls, kind]
      have unseen : c.observe ok u results = [] := by
        cases c with
        | commit => cases kind
        | callContract => rfl
      rw [omitted, runAll, ran]
      simp only [unseen, List.nil_append]
      exact same.casesOn (fun same => .some same) .none
    | false =>
      cases c with
      | callContract => cases kind
      | commit ctx env txs =>
        have step := performByteCode_twin ctx env .committed txs [] twin
        have kept : omitCalls (commit ctx env txs :: rest) =
            commit ctx env txs :: omitCalls rest := by simp [omitCalls, isCall]
        rw [kept, runAll, runAll]
        have later := quiet.2
        simp only [perform] at later ⊢
        generalize performByteCode ctx env .committed txs t [] = left at step later
        generalize performByteCode ctx env .committed txs s [] = right at step
        cases step with
        | none => exact .none
        | @some x y same =>
          obtain ⟨ok, u, results⟩ := x
          obtain ⟨ok', v, results'⟩ := y
          obtain ⟨flag, after, list⟩ := same
          simp only [] at flag after list
          subst flag list
          have tail := ih after (later ok u results rfl)
          have seen : observe (commit ctx env txs) ok u results =
              observe (commit ctx env txs) ok v results := by
            simp only [observe, after.tries.trie, after.tries.stateUTXO]
          simp only []
          exact tail.casesOn (fun same => .some ⟨by rw [seen, same.1], same.2⟩) .none

/-- Calls that find nothing left over interfere with no committed execution; from
`nFixUTXOCacheHFHeight` on, nothing is ever left over. -/
theorem quiet_calls_do_not_interfere (s : ArtaxState) (parked : s.Parked) :
    (QuietCalls commands s →
      Option.Rel SameRun (runAll commands s) (runAll (omitCalls commands) s)) ∧
    (s.VinsClean → s.deleteAddresses = [] → (∀ c ∈ commands, c.Fixed) → CallsReturn commands s →
      QuietCalls commands s) :=
  ⟨runAll_omitCalls commands (Twin.refl parked), fun clean fresh fixed returns =>
    quietCalls_of_fixed commands parked clean fresh fixed returns⟩

/-! ## Around the fork -/

def paidBefore : ArtaxState where
  trie := fun a => if a = 7 then some ⟨1#256, 0#256, fun _ => 0#256, [0]⟩ else none
  stateUTXO := fun a => if a = 9 then some ⟨3, 0, 5#256, true⟩ else none

theorem parked_paidBefore : paidBefore.Parked := by
  refine ⟨fun _ missing => (by cases missing), fun _ => .inl rfl, fun a v stored => ?_, rfl, rfl⟩
  simp only [paidBefore] at stored
  split at stored
  · cases stored
    rfl
  · cases stored

def stopping (chainHeight : Int) : ExecutionContext :=
  { ExecutionContext.sample (.stop []) with chainHeight }

def nextBlock : EnvInfo := { number := 11, author := 2, gasLimit := 100 }

def refusedCreation (chainHeight : Int) : Command :=
  .commit (stopping chainHeight) nextBlock
    [{ isCreation := true, value := 1#256, gasPrice := 1#256, gas := 1#256, data := [0], sender := 9 }]

def laterCall (chainHeight : Int) : Command :=
  .commit (stopping chainHeight) nextBlock
    [{ isCreation := false, value := 0#256, gasPrice := 1#256, gas := 1#256, receiveAddress := 7,
       data := [], sender := 8 }]

def readOnlyCall (chainHeight : Int) : Command :=
  .callContract (stopping chainHeight) nextBlock 7 [] 0 1

theorem quiet_call_at_fork :
    QuietCalls [readOnlyCall 100000, laterCall 100000] paidBefore ∧
      Option.Rel SameRun (runAll [readOnlyCall 100000, laterCall 100000] paidBefore)
        (runAll [laterCall 100000] paidBefore) := by
  have both := quiet_calls_do_not_interfere [readOnlyCall 100000, laterCall 100000] paidBefore
    parked_paidBefore
  have quiet : QuietCalls [readOnlyCall 100000, laterCall 100000] paidBefore := by
    refine both.2 (fun _ _ held => by cases held) rfl (fun c member => ?_)
      ⟨fun _ => by decide +kernel, fun _ _ _ _ => ⟨fun isCall => (by cases isCall), fun _ _ _ _ => trivial⟩⟩
    rcases List.mem_cons.1 member with rfl | last
    · trivial
    · cases List.mem_singleton.1 last
      exact ⟨by decide, .inl (by decide)⟩
  exact ⟨quiet, both.1 quiet⟩

/-- Below the fork the output that the exception marked as dead is removed by the next execution;
when a call comes between, it stays. -/
theorem early_call_keeps_dead_output :
    paidBefore.Parked ∧ paidBefore.VinsClean ∧ paidBefore.deleteAddresses = [] ∧
    (runAll [refusedCreation 10, readOnlyCall 10, laterCall 10] paidBefore).map
        (fun run => (run.1.map (·.ok), run.2.stateUTXO 9)) =
      some ([true, true], some ⟨3, 0, 5#256, true⟩) ∧
    (runAll (omitCalls [refusedCreation 10, readOnlyCall 10, laterCall 10]) paidBefore).map
        (fun run => (run.1.map (·.ok), run.2.stateUTXO 9)) =
      some ([true, true], none) :=
  ⟨parked_paidBefore, fun _ _ held => (by cases held), rfl, by decide +kernel, by decide +kernel⟩

end Command
end Artax
