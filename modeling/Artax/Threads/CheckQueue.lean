import Mathlib.Algebra.BigOperators.Group.Finset.Basic
import Mathlib.Data.Fintype.Basic

/-!
# Parallel script checks

`CCheckQueue` hands checks out to worker threads in batches, and once a check has failed the others
are taken and not executed. An event is one critical section or one check. The verdict rests on one
equivalence: all checks of the round pass exactly when the flag, the queue and what every thread
holds still say so.
-/

namespace Artax

open Function List Finset

/-- The variables of `Loop` between two critical sections. A thread outside the loop, or in
`cond.wait`, has no batch. -/
structure LoopState (Check : Type) where
  waiting : Bool := false
  nNow : Nat := 0
  vChecks : List Check := []
  fOk : Bool := true

/-- Without a batch nothing is left to do. -/
def LoopState.Rests {Check : Type} (state : LoopState Check) : Prop :=
  state.waiting = true ∨ state.nNow = 0 →
    state.nNow = 0 ∧ state.vChecks = [] ∧ state.fOk = true

/-- The queue, its top first, with its threads and the checks of the round. -/
structure CCheckQueue (Thread Check : Type) where
  queue : List Check := []
  nIdle : Nat := 0
  nTotal : Nat := 0
  fAllOk : Bool := true
  nTodo : Nat := 0
  thread : Thread → LoopState Check := fun _ => {}
  added : List Check := []
  executed : List Check := []

inductive QueueEvent (Thread Check : Type)
  | add (vChecks : List Check)
  /-- A thread calls `Loop`, or comes back to its start with a finished batch. -/
  | lock (t : Thread)
  | wake (t : Thread)
  | execute (t : Thread)

namespace CCheckQueue

variable {Thread Check : Type} [DecidableEq Thread] (eval : Check → Bool) (master : Thread)
  (nBatchSize : Nat)

variable (q : CCheckQueue Thread Check)

/-- The inner loop of `Loop` up to where it waits or has a batch. -/
def proceed (t : Thread) : CCheckQueue Thread Check × Option Bool :=
  if q.queue.isEmpty then
    if t = master ∧ q.nTodo = 0 then
      ({ q with
        nTotal := q.nTotal - 1, fAllOk := true, thread := update q.thread t {}
        added := [], executed := [] }, some q.fAllOk)
    else
      ({ q with
        nIdle := q.nIdle + 1, thread := update q.thread t { waiting := true } }, none)
  else
    let nNow := max 1 (min nBatchSize (q.queue.length / (q.nTotal + q.nIdle + 1)))
    ({ q with
      queue := q.queue.drop nNow
      thread := update q.thread t ⟨false, nNow, q.queue.take nNow, q.fAllOk⟩ }, none)

/-- The start of a round of `Loop`, after a batch. -/
def cleanUp (t : Thread) : CCheckQueue Thread Check :=
  { q with
    fAllOk := q.fAllOk && (q.thread t).fOk
    nTodo := q.nTodo - (q.thread t).nNow
    thread := update q.thread t {} }

/-- One event. The master calls `Add` and `Wait`. -/
def step :
    QueueEvent Thread Check → Option (CCheckQueue Thread Check × Option Bool)
  | .add vChecks =>
    if (q.thread master).waiting = false ∧ (q.thread master).nNow = 0 then
      some ({ q with
        queue := vChecks.reverse ++ q.queue
        nTodo := q.nTodo + vChecks.length
        added := q.added ++ vChecks }, none)
    else none
  | .lock t =>
    if (q.thread t).waiting || !(q.thread t).vChecks.isEmpty then none
    else if (q.thread t).nNow ≠ 0 then some ((q.cleanUp t).proceed master nBatchSize t)
    else some (proceed master nBatchSize { q with nTotal := q.nTotal + 1 } t)
  | .wake t =>
    if (q.thread t).waiting then
      some (proceed master nBatchSize { q with nIdle := q.nIdle - 1 } t)
    else none
  | .execute t =>
    match (q.thread t).vChecks with
    | [] => none
    | check :: rest =>
      some ({ q with
        thread := update q.thread t { q.thread t with
          vChecks := rest, fOk := (q.thread t).fOk && eval check }
        executed := if (q.thread t).fOk then check :: q.executed else q.executed }, none)

inductive Reaches : CCheckQueue Thread Check → Prop
  | initial : Reaches {}
  | step {before after : CCheckQueue Thread Check} {ret : Option Bool}
    (event : QueueEvent Thread Check) (reached : Reaches before)
    (stepped : before.step eval master nBatchSize event = some (after, ret)) : Reaches after

variable [Fintype Thread] [DecidableEq Check]

/-- What holds between any two events. -/
structure Balanced (q : CCheckQueue Thread Check) : Prop where
  todo : q.nTodo = q.queue.length + ∑ t, (q.thread t).nNow
  rest : ∀ t, (q.thread t).Rests
  verdict : (∀ check ∈ q.added, eval check = true) ↔ q.fAllOk = true ∧
    (∀ check ∈ q.queue, eval check = true) ∧
      ∀ t, (q.thread t).fOk = true ∧ ∀ check ∈ (q.thread t).vChecks, eval check = true
  once : ∀ check, q.executed.count check + q.queue.count check +
    ∑ t, (q.thread t).vChecks.count check ≤ q.added.count check

/-- A `Wait` that returns gives the verdict on its round, and what it leaves is as at the start. -/
def Returns (q r : CCheckQueue Thread Check) (ret : Option Bool) : Prop :=
  ∀ fRet, ret = some fRet → (fRet = true ↔ ∀ check ∈ q.added, eval check = true) ∧
    r.queue = [] ∧ r.nTodo = 0 ∧ r.fAllOk = true

variable {eval master nBatchSize} {q r : CCheckQueue Thread Check} {t : Thread} {ret : Option Bool}

omit [DecidableEq Check] in
theorem sum_update (f : LoopState Check → Nat) (threads : Thread → LoopState Check) (t : Thread)
    (new : LoopState Check) : ∑ u, f (update threads t new u) + f (threads t) =
      ∑ u, f (threads u) + f new := by
  have rest : ∑ u ∈ univ.erase t, f (update threads t new u) =
      ∑ u ∈ univ.erase t, f (threads u) :=
    sum_congr rfl fun u other => by rw [update_of_ne (ne_of_mem_erase other)]
  rw [← add_sum_erase _ _ (mem_univ t),
    ← add_sum_erase _ (fun u => f (threads u)) (mem_univ t), rest,
    update_self]
  omega

omit [DecidableEq Check] [Fintype Thread] in
theorem forall_iff (P : LoopState Check → Prop) (threads : Thread → LoopState Check) (t : Thread) :
    (∀ u, P (threads u)) ↔ P (threads t) ∧ ∀ u, u ≠ t → P (threads u) := by
  simpa using forall_update_iff threads (a := t) (b := threads t) fun _ => P

namespace Balanced

theorem change {new : LoopState Check} (bal : q.Balanced eval)
    (thread : r.thread = update q.thread t new) (added : r.added = q.added)
    (todo : r.nTodo + q.queue.length + (q.thread t).nNow =
      q.nTodo + r.queue.length + new.nNow)
    (rest : new.Rests)
    (verdict : (q.fAllOk ∧ (∀ check ∈ q.queue, eval check) ∧
        (q.thread t).fOk ∧ ∀ check ∈ (q.thread t).vChecks, eval check) ↔
      r.fAllOk ∧ (∀ check ∈ r.queue, eval check) ∧
        new.fOk ∧ ∀ check ∈ new.vChecks, eval check)
    (once : ∀ check, r.executed.count check + r.queue.count check + new.vChecks.count check ≤
      q.executed.count check + q.queue.count check + (q.thread t).vChecks.count check) :
    r.Balanced eval := by
  have held := forall_update_iff q.thread (a := t) (b := new)
  refine ⟨?_, ?_, ?_, fun check => ?_⟩
  · have sums := sum_update LoopState.nNow q.thread t new
    have before := bal.todo
    rw [thread]
    omega
  · rw [thread, held fun _ => LoopState.Rests]
    exact ⟨rest, fun u _ => bal.rest u⟩
  · rw [thread, added, bal.verdict, held fun _ state =>
      state.fOk = true ∧ ∀ check ∈ state.vChecks, eval check = true, forall_iff (fun state =>
      state.fOk = true ∧ ∀ check ∈ state.vChecks, eval check) q.thread t]
    tauto
  · have sums := sum_update (·.vChecks.count check) q.thread t new
    have before := bal.once check
    have moved := once check
    rw [thread, added]
    omega

theorem proceed (bal : q.Balanced eval) (idle : (q.thread t).waiting ∨ (q.thread t).nNow = 0)
    (done : q.proceed master nBatchSize t = (r, ret)) : r.Balanced eval ∧ Returns eval q r ret := by
  obtain ⟨noBatch, noChecks, fine⟩ := bal.rest t idle
  unfold CCheckQueue.proceed at done
  split at done
  · rename_i empty
    rw [List.isEmpty_iff] at empty
    split at done <;> cases done
    · rename_i finished
      -- the counter is zero, so no thread has a batch
      have total := bal.todo
      rw [finished.2, empty, List.length_nil, Nat.zero_add, eq_comm, Finset.sum_eq_zero_iff] at total
      have others := fun u => bal.rest u (.inr (total u (mem_univ u)))
      have after : ∀ u, (update q.thread t {} u).nNow = 0 ∧
          (update q.thread t {} u).vChecks = [] ∧
          (update q.thread t {} u).fOk :=
        (forall_update_iff q.thread fun _ (state : LoopState Check) =>
          state.nNow = 0 ∧ state.vChecks = [] ∧ state.fOk).2
            ⟨⟨rfl, rfl, rfl⟩, fun u _ => others u⟩
      refine ⟨⟨?_, fun u _ => after u, ?_, ?_⟩, ?_⟩
      · simp [empty, finished.2, after]
      · simp [empty, after]
      · simp [empty, after]
      · rintro _ ⟨⟩
        refine ⟨?_, empty, finished.2, rfl⟩
        rw [bal.verdict, empty]
        simp [others]
    · refine ⟨bal.change rfl rfl ?_ (fun _ => ⟨rfl, rfl, rfl⟩) ?_ fun check => ?_, by simp [Returns]⟩
      · simp [noBatch]
      · simp [noChecks, fine]
      · simp [noChecks]
  · rename_i more
    have size : max 1 (min nBatchSize (q.queue.length / (q.nTotal + q.nIdle + 1))) ≤
        q.queue.length := by
      refine max_le ?_ ((min_le_right _ _).trans (Nat.div_le_self _ _))
      exact List.length_pos_of_ne_nil fun empty => more (List.isEmpty_iff.2 empty)
    have some : max 1 (min nBatchSize (q.queue.length / (q.nTotal + q.nIdle + 1))) ≠ 0 :=
      Nat.ne_of_gt (Nat.lt_of_lt_of_le Nat.one_pos (le_max_left _ _))
    generalize max 1 (min nBatchSize (q.queue.length / (q.nTotal + q.nIdle + 1))) = nNow
      at size some done
    cases done
    have all := List.take_append_drop nNow q.queue
    refine ⟨bal.change rfl rfl ?_ (fun idle => absurd idle (by simpa using some)) ?_ fun check => ?_,
      by simp [Returns]⟩
    · simp only [noBatch, List.length_drop]
      omega
    · have parts : (∀ check ∈ q.queue, eval check) ↔
          (∀ check ∈ q.queue.take nNow, eval check) ∧
            ∀ check ∈ q.queue.drop nNow, eval check := by
        rw [← List.forall_mem_append, all]
      simp only [noChecks, fine, parts]
      simp
      tauto
    · have counts := congrArg (List.count check) all
      rw [List.count_append] at counts
      simp only [noChecks, List.count_nil]
      omega

omit [DecidableEq Thread] in
theorem counters (bal : q.Balanced eval) (nIdle nTotal : Nat) :
    Balanced eval { q with nIdle := nIdle, nTotal := nTotal } :=
  ⟨bal.todo, bal.rest, bal.verdict, bal.once⟩

theorem cleanUp (bal : q.Balanced eval) (done : (q.thread t).vChecks = []) :
    (q.cleanUp t).Balanced eval := by
  have part : (q.thread t).nNow ≤ q.nTodo := by
    rw [bal.todo]
    rw [← add_sum_erase _ _ (mem_univ t)]
    omega
  refine bal.change rfl rfl ?_ (fun _ => ⟨rfl, rfl, rfl⟩) ?_ fun check => ?_
  · simp only [CCheckQueue.cleanUp]
    omega
  · simp [CCheckQueue.cleanUp, done]
    tauto
  · simp [CCheckQueue.cleanUp]

theorem execute {check : Check} {left : List Check} (bal : q.Balanced eval)
    (next : (q.thread t).vChecks = check :: left) : Balanced eval { q with
      thread := update q.thread t { q.thread t with
        vChecks := left, fOk := (q.thread t).fOk && eval check }
      executed := if (q.thread t).fOk then check :: q.executed else q.executed } := by
  refine bal.change rfl rfl (by simp) (fun idle => ?_) ?_ fun other => ?_
  · have none := (bal.rest t idle).2.1
    rw [next] at none
    cases none
  · simp [next]
    tauto
  · cases (q.thread t).fOk <;> simp [next, count_cons]
    omega

theorem step {event : QueueEvent Thread Check} (bal : q.Balanced eval)
    (stepped : q.step eval master nBatchSize event = some (r, ret)) :
    r.Balanced eval ∧ Returns eval q r ret := by
  cases event <;> simp only [CCheckQueue.step] at stepped
  case add vChecks =>
    split at stepped <;> cases stepped
    refine ⟨⟨?_, bal.rest, ?_, fun check => ?_⟩, by simp [Returns]⟩
    · have before := bal.todo
      simp only [length_append, length_reverse]
      omega
    · have before := bal.verdict
      simp only [forall_mem_append, mem_reverse]
      tauto
    · have before := bal.once check
      simp only [count_append, count_reverse]
      omega
  case lock t =>
    split at stepped
    · cases stepped
    · rename_i here
      split at stepped
      · have done : (q.thread t).vChecks = [] := by simp_all
        exact (bal.cleanUp done).proceed (.inr (by simp [CCheckQueue.cleanUp]))
          (Option.some.inj stepped)
      · rename_i first
        exact (bal.counters q.nIdle (q.nTotal + 1)).proceed (.inr (not_not.1 first))
          (Option.some.inj stepped)
  case wake t =>
    split at stepped
    · rename_i waits
      exact (bal.counters (q.nIdle - 1) q.nTotal).proceed (.inl waits) (Option.some.inj stepped)
    · cases stepped
  case execute t =>
    split at stepped <;> cases stepped
    rename_i next
    exact ⟨bal.execute next, by simp [Returns]⟩

end Balanced

theorem Reaches.balanced (reached : q.Reaches eval master nBatchSize) : q.Balanced eval := by
  induction reached with
  | initial => exact ⟨by simp, fun _ _ => ⟨rfl, rfl, rfl⟩, by simp, by simp⟩
  | step event _ stepped ih => exact (ih.step stepped).1

/-- In every interleaving no check is executed more often than it was added, and a `Wait` that
returns gives the sequential verdict on its round and leaves nothing behind. -/
theorem wait_verdict (reached : q.Reaches eval master nBatchSize) :
    (∀ check, q.executed.count check ≤ q.added.count check) ∧
      ∀ event r fRet, q.step eval master nBatchSize event = some (r, some fRet) →
        (fRet = true ↔ ∀ check ∈ q.added, eval check = true) ∧
          r.queue = [] ∧ r.nTodo = 0 ∧ r.fAllOk = true ∧ ∀ t, (r.thread t).vChecks = [] := by
  have bal := reached.balanced
  refine ⟨fun check => ?_, fun event r fRet stepped => ?_⟩
  · have before := bal.once check
    omega
  · obtain ⟨after, returned⟩ := bal.step stepped
    obtain ⟨verdict, queue, todo, ok⟩ := returned fRet rfl
    have total := after.todo
    rw [todo, queue, length_nil, Nat.zero_add, eq_comm, Finset.sum_eq_zero_iff] at total
    exact ⟨verdict, queue, todo, ok, fun t => (after.rest t (.inr (total t (mem_univ t)))).2.1⟩

/-- The master, here `true`, finds that 7 fails while its worker has a batch, waits for it and is
woken to return. -/
theorem wait_verdict_two_threads : ∃ q r : CCheckQueue Bool Nat, q.Reaches (· < 5) true 8 ∧
    q.added = [1, 7, 2] ∧ q.executed = [1, 7, 2] ∧
    q.step (· < 5) true 8 (.wake true) = some (r, some false) ∧ r.fAllOk = true := by
  have begun : Reaches (· < 5) true 8 _ := (((Reaches.initial.step (.lock false) rfl).step
    (.add [1, 7, 2]) rfl).step (.wake false) rfl).step (.lock true) rfl
  have failed := ((begun.step (.execute false) rfl).step (.execute true) rfl).step (.lock false) rfl
  have waits := ((failed.step (.lock true) rfl).step (.execute false) rfl).step (.lock false) rfl
  obtain ⟨-, returns⟩ := wait_verdict waits
  exact ⟨_, _, waits, rfl, rfl, rfl, (returns (.wake true) _ false rfl).2.2.2.1⟩

end CCheckQueue
end Artax
