import Mathlib.Data.List.Sort

/-!
# Scheduled tasks

`CScheduler` runs tasks at their times, on the threads inside `serviceQueue`. An event is what happens
between two releases of the lock. A thread that timed out takes the first task there is then, not the
one it waited for, so no task starts early as long as nobody else waits at that moment.
-/

namespace Artax

open Function List

/-- Where a thread is while it does not hold the lock. -/
inductive ServicePlace
  | outside
  /-- In `RandAddSeedSleep`. -/
  | sleeping
  | wait
  | waitUntil (timeToWaitFor : Int)
  | running

/-- The scheduler with its threads and the clock, the calls of `schedule`, and the tasks that were
started with the clock at that moment. -/
structure CScheduler (Thread Task : Type) where
  taskQueue : List (Int × Task) := []
  stopRequested : Bool := false
  stopWhenEmpty : Bool := false
  thread : Thread → ServicePlace := fun _ => .outside
  now : Int
  scheduled : List (Int × Task) := []
  started : List (Int × Int × Task) := []

inductive SchedulerEvent (Thread Task : Type)
  | elapse (now : Int)
  | schedule (f : Task) (t : Int)
  | stop (drain : Bool)
  /-- A thread calls `serviceQueue`, or comes out of its sleep, its task or its wait, notified or not. -/
  | lock (thread : Thread)
  /-- A wait times out and a task is left; otherwise the loop goes on as after `lock`. -/
  | timeout (thread : Thread)
  /-- The task throws, or the thread is interrupted. -/
  | throw (thread : Thread)

namespace CScheduler

variable {Thread Task : Type}

def shouldStop (s : CScheduler Thread Task) : Bool :=
  s.stopRequested || (s.stopWhenEmpty && s.taskQueue.isEmpty)

/-- A multimap inserts behind the entries with the same key. -/
def schedule (s : CScheduler Thread Task) (f : Task) (t : Int) : CScheduler Thread Task :=
  { s with
    taskQueue := s.taskQueue.orderedInsert (fun new old => new.1 < old.1) (t, f)
    scheduled := s.scheduled ++ [(t, f)] }

def stop (s : CScheduler Thread Task) (drain : Bool) : CScheduler Thread Task :=
  if drain then { s with stopWhenEmpty := true } else { s with stopRequested := true }

variable [DecidableEq Thread]

/-- The loops of `serviceQueue` up to where the thread gives up the lock. -/
def serviceQueue (s : CScheduler Thread Task) (thread : Thread) : ServicePlace :=
  if s.shouldStop then .outside
  else match s.taskQueue, s.thread thread with
    | first :: _, _ => .waitUntil first.1
    | [], .sleeping | [], .wait => .wait
    | [], _ => .sleeping

/-- The state after an event, `none` if the thread is not where the event happens. -/
def step (s : CScheduler Thread Task) : SchedulerEvent Thread Task → Option (CScheduler Thread Task)
  | .elapse now => if s.now ≤ now then some { s with now } else none
  | .schedule f t => some (s.schedule f t)
  | .stop drain => some (s.stop drain)
  | .lock thread => some { s with thread := update s.thread thread (s.serviceQueue thread) }
  | .timeout thread =>
    match s.thread thread, s.shouldStop, s.taskQueue with
    | .waitUntil timeToWaitFor, false, first :: rest =>
      if timeToWaitFor ≤ s.now then
        some { s with
          taskQueue := rest
          thread := update s.thread thread .running
          started := s.started ++ [(s.now, first)] }
      else none
    | _, _, _ => none
  | .throw thread => some { s with thread := update s.thread thread .outside }

def run (s : CScheduler Thread Task) (events : List (SchedulerEvent Thread Task)) :
    Option (CScheduler Thread Task) :=
  events.foldlM step s

/-- Whenever a thread times out in a run, no other thread is in `wait_until`. -/
def Alone (s : CScheduler Thread Task) : List (SchedulerEvent Thread Task) → Prop
  | [] => True
  | event :: events =>
    (∀ thread, event = .timeout thread → ∀ u time, s.thread u = .waitUntil time → u = thread) ∧
      ∀ s', s.step event = some s' → s'.Alone events

/-- What holds between two events: every call of `schedule` left one task, in the queue or started
once; and, in a run of which `alone` holds, the first task is due when a thread that waits expects it,
and none was started early. -/
structure Served (alone : Prop) (s : CScheduler Thread Task) : Prop where
  logged : (s.started.map Prod.snd ++ s.taskQueue).Perm s.scheduled
  expected : alone → ∀ u time, s.thread u = .waitUntil time →
    ∃ first ∈ s.taskQueue.head?, first.1 ≤ time
  due : alone → ∀ start ∈ s.started, start.2.1 ≤ start.1

namespace Served

variable {alone : Prop} {s s' : CScheduler Thread Task} (served : s.Served alone)
include served

theorem move (thread : Thread) {place : ServicePlace}
    (expected : ∀ time, place = .waitUntil time → ∃ first ∈ s.taskQueue.head?, first.1 ≤ time) :
    Served alone { s with thread := update s.thread thread place } := by
  refine ⟨served.logged, fun single u time waits => ?_, served.due⟩
  by_cases same : u = thread
  · exact expected time (by simpa [same] using waits)
  · exact served.expected single u time (by simpa [same] using waits)

theorem lock (thread : Thread) :
    Served alone { s with thread := update s.thread thread (s.serviceQueue thread) } := by
  refine served.move thread fun time waits => ?_
  unfold serviceQueue at waits
  split_ifs at waits
  split at waits <;> cases waits
  exact ⟨_, by simp [*], le_rfl⟩

omit [DecidableEq Thread] in
theorem schedule (f : Task) (t : Int) : (s.schedule f t).Served alone := by
  refine ⟨?_, fun single u time waits => ?_, served.due⟩
  · calc s.started.map Prod.snd ++ s.taskQueue.orderedInsert _ (t, f)
      _ ~ s.started.map Prod.snd ++ (t, f) :: s.taskQueue := (perm_orderedInsert _ _ _).append_left _
      _ ~ (t, f) :: (s.started.map Prod.snd ++ s.taskQueue) := perm_middle
      _ ~ (t, f) :: s.scheduled := served.logged.cons _
      _ ~ s.scheduled ++ [(t, f)] := (perm_append_singleton _ _).symm
  · obtain ⟨first, found, due⟩ := served.expected single u time waits
    obtain ⟨rest, queue⟩ := head?_eq_some_iff.1 found
    simp only [CScheduler.schedule, queue, orderedInsert]
    split_ifs with before
    · exact ⟨(t, f), rfl, before.le.trans due⟩
    · exact ⟨first, rfl, due⟩

theorem start {thread : Thread} {time : Int} {first : Int × Task} {rest : List (Int × Task)}
    (waits : s.thread thread = .waitUntil time) (queue : s.taskQueue = first :: rest)
    (reached : time ≤ s.now)
    (only : alone → ∀ u time, s.thread u = .waitUntil time → u = thread) :
    Served alone { s with
      taskQueue := rest
      thread := update s.thread thread .running
      started := s.started ++ [(s.now, first)] } := by
  refine ⟨by simpa [queue] using served.logged, fun single u limit waitsToo => ?_,
    fun single start member => ?_⟩
  · have other : u ≠ thread := by
      rintro rfl
      simp at waitsToo
    exact absurd (only single u limit (by simpa [other] using waitsToo)) other
  · rcases mem_append.1 member with old | new
    · exact served.due single start old
    · obtain ⟨_, found, limit⟩ := served.expected single thread time waits
      rw [queue] at found
      cases found
      cases mem_singleton.1 new
      exact limit.trans reached

theorem step {event : SchedulerEvent Thread Task}
    (only : alone → ∀ thread, event = .timeout thread →
      ∀ u time, s.thread u = .waitUntil time → u = thread)
    (stepped : s.step event = some s') : s'.Served alone := by
  cases event <;> simp only [CScheduler.step] at stepped
  case elapse now =>
    split at stepped <;> cases stepped
    exact ⟨served.logged, served.expected, served.due⟩
  case schedule f t =>
    cases stepped
    exact served.schedule f t
  case stop drain =>
    cases stepped
    cases drain <;> exact ⟨served.logged, served.expected, served.due⟩
  case lock thread =>
    cases stepped
    exact served.lock thread
  case timeout thread =>
    split at stepped
    · split at stepped <;> cases stepped
      exact served.start ‹_› ‹_› ‹_› fun single => only single thread rfl
    · cases stepped
  case throw thread =>
    cases stepped
    exact served.move thread (by simp)

theorem run {events : List (SchedulerEvent Thread Task)} (only : alone → s.Alone events)
    (ran : s.run events = some s') : s'.Served alone := by
  induction events generalizing s with
  | nil =>
    cases ran
    exact served
  | cons event events ih =>
    obtain ⟨next, stepped, ran⟩ := Option.bind_eq_some_iff.1 ran
    exact ih (served.step (fun single => (only single).1) stepped)
      (fun single => (only single).2 next stepped) ran

end Served

/-- In every interleaving each scheduled task is started at most once. None is started before its
time if no other thread is in `wait_until` whenever a thread times out. -/
theorem tasks_start_once_and_on_time {now : Int} {events : List (SchedulerEvent Thread Task)}
    {s : CScheduler Thread Task} (ran : run { now } events = some s) :
    (s.started.map Prod.snd ++ s.taskQueue).Perm s.scheduled ∧
      (Alone { now } events → ∀ start ∈ s.started, start.2.1 ≤ start.1) := by
  have served : Served (Alone { now } events) ({ now } : CScheduler Thread Task) :=
    ⟨.refl _, fun _ => nofun, fun _ => nofun⟩
  exact ⟨(served.run id ran).logged, (served.run id ran).due⟩

def twoTasks (threads : List Bool) : List (SchedulerEvent Bool Nat) :=
  [.schedule 1 10, .schedule 2 20] ++ threads.map .lock ++ [.elapse 10] ++ threads.map .timeout

theorem one_thread_starts_on_time : ∃ s, run { now := 0 } (twoTasks [true]) = some s ∧
    s.started = [(10, 10, 1)] ∧ ∀ start ∈ s.started, start.2.1 ≤ start.1 := by
  have ran : run { now := 0 } (twoTasks [true]) = some _ := rfl
  refine ⟨_, ran, rfl, (tasks_start_once_and_on_time ran).2 ?_⟩
  simp [twoTasks, Alone, step, schedule]

/-- Both threads wait for the first task, and the second to time out starts the next one. -/
theorem second_thread_starts_early : ∃ s, run { now := 0 } (twoTasks [true, false]) = some s ∧
    (10, 20, 2) ∈ s.started :=
  ⟨_, rfl, by decide⟩

end CScheduler

end Artax
