import Mathlib.Logic.Function.Basic

/-!
# Serialised validation callbacks

`SingleThreadedSchedulerClient` runs callbacks on the threads of a scheduler, one at a time and in
order. An event is one critical section of one thread. No wake-up is lost: while a callback is
pending, someone is left who will look at the queue.
-/

namespace Artax

open Function

inductive ClientCall
  | maybeScheduleProcessQueue
  | schedule
  | processQueue
deriving DecidableEq

structure SingleThreadedSchedulerClient (Thread Callback : Type) where
  callbacksPending : List Callback
  areCallbacksRunning : Bool
  tasks : Nat
  callback : Thread → Option Callback
  inside : Thread → Option ClientCall
  enqueued : List Callback
  started : List Callback

inductive ClientEvent (Thread Callback : Type)
  | addToProcessQueue (t : Thread) (func : Callback)
  | maybeScheduleProcessQueue (t : Thread)
  | schedule (t : Thread)
  | serviceQueue (t : Thread)
  | processQueue (t : Thread)
  | callbackDone (t : Thread)

namespace SingleThreadedSchedulerClient

variable {Thread Callback : Type}

def initial : SingleThreadedSchedulerClient Thread Callback :=
  { callbacksPending := [], areCallbacksRunning := false, tasks := 0, callback := fun _ => none
    inside := fun _ => none, enqueued := [], started := [] }

variable {c d : SingleThreadedSchedulerClient Thread Callback}

/-- No thread is inside the client, and the scheduler holds no task of it. -/
def Quiescent (c : SingleThreadedSchedulerClient Thread Callback) : Prop :=
  (∀ t, c.inside t = none ∧ c.callback t = none) ∧ c.tasks = 0

/-- What holds between any two critical sections. -/
structure Serialised (c : SingleThreadedSchedulerClient Thread Callback) : Prop where
  running : c.areCallbacksRunning = true ↔ ∃ t, (c.callback t).isSome
  single : ∀ t u, (c.callback t).isSome → (c.callback u).isSome → t = u
  logged : c.enqueued = c.started ++ c.callbacksPending
  watched : c.callbacksPending ≠ [] →
    c.areCallbacksRunning = true ∨ 0 < c.tasks ∨ ∃ t, (c.inside t).isSome

theorem serialised_initial :
    (initial : SingleThreadedSchedulerClient Thread Callback).Serialised where
  running := by simp [initial]
  single := by simp [initial]
  logged := rfl
  watched := by simp [initial]

theorem Serialised.callback_eq_none (ser : c.Serialised) (idle : c.areCallbacksRunning = false) (t : Thread) :
    c.callback t = none := by
  by_contra running
  have flag := ser.running.2 ⟨t, Option.isSome_iff_ne_none.2 running⟩
  rw [idle] at flag
  cases flag

variable [DecidableEq Thread]

/-- The state after an event, `none` if the thread is not where the event happens. -/
def step (c : SingleThreadedSchedulerClient Thread Callback) :
    ClientEvent Thread Callback → Option (SingleThreadedSchedulerClient Thread Callback)
  | .addToProcessQueue t func =>
    if c.inside t = none then
      some { c with
        callbacksPending := c.callbacksPending ++ [func]
        enqueued := c.enqueued ++ [func]
        inside := update c.inside t (some .maybeScheduleProcessQueue) }
    else none
  | .maybeScheduleProcessQueue t =>
    if c.inside t = some .maybeScheduleProcessQueue then
      if c.areCallbacksRunning || c.callbacksPending.isEmpty then
        some { c with inside := update c.inside t none }
      else some { c with inside := update c.inside t (some .schedule) }
    else none
  | .schedule t =>
    if c.inside t = some .schedule then
      some { c with tasks := c.tasks + 1, inside := update c.inside t none }
    else none
  | .serviceQueue t =>
    if c.inside t = none ∧ (c.callback t).isNone ∧ 0 < c.tasks then
      some { c with
        tasks := c.tasks - 1, inside := update c.inside t (some .processQueue) }
    else none
  | .processQueue t =>
    if c.inside t = some .processQueue then
      match c.areCallbacksRunning, c.callbacksPending with
      | false, callback :: rest =>
        some { c with
          areCallbacksRunning := true
          callbacksPending := rest
          callback := update c.callback t (some callback)
          inside := update c.inside t none
          started := c.started ++ [callback] }
      | _, _ => some { c with inside := update c.inside t none }
    else none
  | .callbackDone t =>
    if c.inside t = none ∧ (c.callback t).isSome then
      some { c with
        areCallbacksRunning := false
        callback := update c.callback t none
        inside := update c.inside t (some .maybeScheduleProcessQueue) }
    else none

def run (c : SingleThreadedSchedulerClient Thread Callback)
    (events : List (ClientEvent Thread Callback)) :
    Option (SingleThreadedSchedulerClient Thread Callback) :=
  events.foldlM step c

namespace Serialised

theorem start {callback : Callback} {rest : List Callback} (ser : c.Serialised) (t : Thread)
    (idle : c.areCallbacksRunning = false) (pending : c.callbacksPending = callback :: rest) :
    Serialised { c with
      areCallbacksRunning := true
      callbacksPending := rest
      callback := update c.callback t (some callback)
      inside := update c.inside t none
      started := c.started ++ [callback] } := by
  have only : ∀ u, (update c.callback t (some callback) u).isSome → u = t := by
    intro u running
    by_contra other
    rw [update_of_ne other, ser.callback_eq_none idle] at running
    cases running
  refine ⟨⟨fun _ => ⟨t, by simp⟩, fun _ => rfl⟩, ?_, ?_, fun _ => .inl rfl⟩
  · intro u v first second
    rw [only u first, only v second]
  · change c.enqueued = c.started ++ [callback] ++ rest
    rw [ser.logged, pending, List.append_assoc, List.singleton_append]

theorem done (ser : c.Serialised) {t : Thread} (mine : (c.callback t).isSome) :
    Serialised { c with
      areCallbacksRunning := false
      callback := update c.callback t none
      inside := update c.inside t (some .maybeScheduleProcessQueue) } := by
  have nobody : ∀ u, update c.callback t none u = none := by
    intro u
    by_cases same : u = t
    · rw [same, update_self]
    · rw [update_of_ne same]
      by_contra running
      exact same (ser.single u t (Option.isSome_iff_ne_none.2 running) mine)
  refine ⟨?_, ?_, ser.logged, fun _ => .inr (.inr ⟨t, by simp⟩)⟩
  · simp [nobody]
  · simp [nobody]

theorem step (ser : c.Serialised) {event : ClientEvent Thread Callback}
    (stepped : c.step event = some d) : d.Serialised := by
  cases event <;> simp only [SingleThreadedSchedulerClient.step] at stepped
  case addToProcessQueue t func =>
    split at stepped <;> cases stepped
    refine ⟨ser.running, ser.single, ?_, fun _ => .inr (.inr ⟨t, by simp⟩)⟩
    rw [ser.logged, List.append_assoc]
  case maybeScheduleProcessQueue t =>
    split at stepped
    · split at stepped <;> cases stepped
      · rename_i leave
        -- the thread leaves only what a running callback will find, or nothing
        refine ⟨ser.running, ser.single, ser.logged, fun pending => .inl ?_⟩
        simpa [show c.callbacksPending ≠ [] from pending] using leave
      · exact ⟨ser.running, ser.single, ser.logged, fun _ => .inr (.inr ⟨t, by simp⟩)⟩
    · cases stepped
  case schedule t =>
    split at stepped <;> cases stepped
    exact ⟨ser.running, ser.single, ser.logged, fun _ => .inr (.inl (Nat.succ_pos _))⟩
  case serviceQueue t =>
    split at stepped <;> cases stepped
    exact ⟨ser.running, ser.single, ser.logged, fun _ => .inr (.inr ⟨t, by simp⟩)⟩
  case processQueue t =>
    split at stepped
    · split at stepped <;> cases stepped
      · rename_i callback rest idle pending
        exact ser.start t idle pending
      · rename_i leave
        refine ⟨ser.running, ser.single, ser.logged, fun pending => .inl ?_⟩
        by_contra idle
        obtain ⟨callback, rest, pending⟩ := List.exists_cons_of_ne_nil pending
        exact leave _ _ (eq_false_of_ne_true idle) pending
    · cases stepped
  case callbackDone t =>
    split at stepped <;> cases stepped
    rename_i here
    exact ser.done here.2

theorem run {events : List (ClientEvent Thread Callback)} (ser : c.Serialised)
    (ran : c.run events = some d) : d.Serialised := by
  induction events generalizing c with
  | nil =>
    cases ran
    exact ser
  | cons event events ih =>
    obtain ⟨next, stepped, ran⟩ := Option.bind_eq_some_iff.1 ran
    exact ih (ser.step stepped) ran

end Serialised

/-- In every interleaving, callbacks that throw included, at most one thread runs a callback,
callbacks start in the order added, and none is pending once the client is quiescent. -/
theorem callbacks_serialised {events : List (ClientEvent Thread Callback)}
    (ran : run initial events = some c) :
    (∀ t u, (c.callback t).isSome → (c.callback u).isSome → t = u) ∧
      c.enqueued = c.started ++ c.callbacksPending ∧
      (c.Quiescent → c.callbacksPending = []) := by
  have ser := serialised_initial.run ran
  refine ⟨ser.single, ser.logged, fun quiet => ?_⟩
  by_contra pending
  obtain running | task | ⟨t, inside⟩ := ser.watched pending
  · obtain ⟨t, running⟩ := ser.running.1 running
    simp [(quiet.1 t).2] at running
  · exact absurd quiet.2 (Nat.ne_of_gt task)
  · simp [(quiet.1 t).1] at inside

/-- In every interleaving the client is never stuck: while callbacks are pending, a thread inside it, one
with a callback or a worker can go on. -/
theorem pending_callbacks_proceed {events : List (ClientEvent Thread Callback)}
    (ran : run initial events = some c) (pending : c.callbacksPending ≠ []) (worker : Thread) :
    ∃ event d, c.step event = some d ∧ d.enqueued = c.enqueued := by
  have ser := serialised_initial.run ran
  by_contra stuck
  simp only [not_exists, not_and] at stuck
  have outside : ∀ t, c.inside t = none := by
    intro t
    rcases inside : c.inside t with _ | ⟨_ | _ | _⟩
    · rfl
    · have maybe := stuck (.maybeScheduleProcessQueue t)
      grind [step]
    · exact (stuck (.schedule t) _ (if_pos inside) rfl).elim
    · have process := stuck (.processQueue t)
      grind [step]
  have idle : ∀ t, c.callback t = none := by
    intro t
    simpa [step, outside] using stuck (.callbackDone t)
  have done : c.tasks = 0 := by
    simpa [step, outside, idle] using stuck (.serviceQueue worker)
  simpa [ser.running, outside, idle, done] using ser.watched pending

def twoAdded : List (ClientEvent Bool Nat) :=
  [.addToProcessQueue false 1, .maybeScheduleProcessQueue false, .schedule false,
    .serviceQueue true, .processQueue true, .addToProcessQueue false 2,
    .maybeScheduleProcessQueue false]

theorem twoAdded_serialised : ∃ c, run initial twoAdded = some c ∧ c.started = [1] ∧
    c.callbacksPending = [2] ∧ c.enqueued = c.started ++ c.callbacksPending := by
  refine ⟨_, rfl, rfl, rfl, ?_⟩
  exact (callbacks_serialised (rfl : run initial twoAdded = some _)).2.1

theorem twoAdded_proceeds : ∃ c, run initial twoAdded = some c ∧
    ∃ event d, c.step event = some d ∧ d.enqueued = [1, 2] :=
  ⟨_, rfl, pending_callbacks_proceed (rfl : run initial twoAdded = some _) (by decide) true⟩

end SingleThreadedSchedulerClient

end Artax
