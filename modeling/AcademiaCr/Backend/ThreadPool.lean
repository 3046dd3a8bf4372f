import AcademiaCr.Library.Run
import AcademiaCr.Library.Tally

/-!
# The thread pool

`ThreadPool` as a transition system. A section under `queue_mutex_` is one step. A worker that
waits on the condition variable has left the mutex; when it is notified, or wakes up for no
reason, it takes the mutex again and tests the predicate. `notify_one` and `notify_all` are
called after the section, so the other threads may act in between.

## Main definitions

- `ThreadPool`: the queue, the stop flag and where each thread is
- `ThreadPool.step`: the steps of the workers, of the callers of `enqueue` and of the destructor
- `ThreadPool.Step`: the same, by what happens
- `PoolRun`: the runs of a pool, with `accepted`, `taken` and `finished` tasks
-/

namespace AcademiaCr.Backend

open Transition Tally

/-! ## Threads -/

/-- Where a worker is: before its section, in the waiting set of `condition_`, executing a
task or at its end. -/
inductive Worker (Task : Type) where
  | ready
  | waiting
  | running (task : Task)
  | exited
  deriving DecidableEq, Repr

/-- What `notify_all` does to a worker. -/
def Worker.notified {Task : Type} : Worker Task → Worker Task
  | waiting => ready
  | x => x

/-- The task that a worker is executing. -/
def Worker.task {Task : Type} : Worker Task → Option Task
  | running task => some task
  | _ => none

/-- Where a call of `enqueue` is: the call has not entered its section, it is between its
section and `notify_one`, it has returned, or it has thrown. -/
inductive Enqueue where
  | outside
  | notifying
  | returned
  | threw
  deriving DecidableEq, Repr

/-- Where the destructor is: it has not entered its section, it is between its section and
`notify_all`, or it has joined this many workers. -/
inductive Destructor where
  | outside
  | notifying
  | joining (joined : Nat)
  deriving DecidableEq, Repr

/-- The pool. Every call of `enqueue` wraps a task of its own, so that calls and tasks have the
same names. -/
structure ThreadPool (workers : Nat) (Task : Type) where
  tasks : List Task
  stop : Bool
  worker : Fin workers → Worker Task
  enqueue : Task → Enqueue
  destructor : Destructor

/-- The number of workers that the constructor starts. -/
def numWorkers (numThreads : Nat) : Nat := if numThreads = 0 then 4 else numThreads

theorem numWorkers_pos (numThreads : Nat) : 0 < numWorkers numThreads := by
  rw [numWorkers]
  split <;> omega

namespace ThreadPool

variable {workers : Nat} {Task : Type} [DecidableEq Task]

/-- The pool after its constructor. -/
def start (workers : Nat) (Task : Type) : ThreadPool workers Task where
  tasks := []
  stop := false
  worker _ := .ready
  enqueue _ := .outside
  destructor := .outside

def setWorker (s : ThreadPool workers Task) (w : Fin workers) (x : Worker Task) :
    ThreadPool workers Task :=
  { s with worker := Function.update s.worker w x }

def setEnqueue (s : ThreadPool workers Task) (t : Task) (x : Enqueue) : ThreadPool workers Task :=
  { s with enqueue := Function.update s.enqueue t x }

section

variable (s : ThreadPool workers Task) {w : Fin workers} {x : Worker Task}

omit [DecidableEq Task]

@[simp] theorem setWorker_tasks : (s.setWorker w x).tasks = s.tasks := rfl
@[simp] theorem setWorker_stop : (s.setWorker w x).stop = s.stop := rfl
@[simp] theorem setWorker_enqueue : (s.setWorker w x).enqueue = s.enqueue := rfl
@[simp] theorem setWorker_destructor : (s.setWorker w x).destructor = s.destructor := rfl

@[simp] theorem setWorker_self : (s.setWorker w x).worker w = x := Function.update_self _ _ _

theorem setWorker_ne {v : Fin workers} (h : v ≠ w) : (s.setWorker w x).worker v = s.worker v :=
  Function.update_of_ne h _ _

end

section

variable (s : ThreadPool workers Task) {t : Task} {y : Enqueue}

@[simp] theorem setEnqueue_tasks : (s.setEnqueue t y).tasks = s.tasks := rfl
@[simp] theorem setEnqueue_stop : (s.setEnqueue t y).stop = s.stop := rfl
@[simp] theorem setEnqueue_worker : (s.setEnqueue t y).worker = s.worker := rfl
@[simp] theorem setEnqueue_destructor : (s.setEnqueue t y).destructor = s.destructor := rfl

@[simp] theorem setEnqueue_self : (s.setEnqueue t y).enqueue t = y := Function.update_self _ _ _

theorem setEnqueue_ne {u : Task} (h : u ≠ t) : (s.setEnqueue t y).enqueue u = s.enqueue u :=
  Function.update_of_ne h _ _

end

/-! ## Steps -/

/-- What may happen next. -/
inductive Action (workers : Nat) (Task : Type) where
  /-- The section of `enqueue`. -/
  | enqueue (t : Task)
  /-- `notify_one`, and the worker that it wakes, if any waits. -/
  | notifyOne (t : Task) (woken : Option (Fin workers))
  /-- The section of `worker_loop`, up to its end or to the wait. -/
  | dequeue (w : Fin workers)
  /-- A spurious wake-up. -/
  | wakeUp (w : Fin workers)
  /-- `task()` returns. -/
  | finish (w : Fin workers)
  /-- The section of the destructor. -/
  | stop
  | notifyAll
  /-- `worker.join()` of the next worker. -/
  | join
  deriving DecidableEq

/-- The section of `worker_loop`, by its predicate and its exit test. -/
def workerSection (s : ThreadPool workers Task) (w : Fin workers) : ThreadPool workers Task :=
  if s.stop ∨ ¬ s.tasks.isEmpty then
    match s.tasks with
    | [] => s.setWorker w .exited
    | task :: rest => { s with tasks := rest }.setWorker w (.running task)
  else s.setWorker w .waiting

/-- One step, if the thread is where it begins. -/
def step (s : ThreadPool workers Task) : Action workers Task → Option (ThreadPool workers Task)
  | .enqueue t =>
    if s.enqueue t = .outside then
      if s.stop then some (s.setEnqueue t .threw)
      else some ({ s with tasks := s.tasks ++ [t] }.setEnqueue t .notifying)
    else none
  | .notifyOne t woken =>
    if s.enqueue t = .notifying then
      match woken with
      | some w =>
        if s.worker w = .waiting then some ((s.setEnqueue t .returned).setWorker w .ready) else none
      | none => if ∀ w, s.worker w ≠ .waiting then some (s.setEnqueue t .returned) else none
    else none
  | .dequeue w => if s.worker w = .ready then some (s.workerSection w) else none
  | .wakeUp w => if s.worker w = .waiting then some (s.setWorker w .ready) else none
  | .finish w =>
    match s.worker w with
    | .running _ => some (s.setWorker w .ready)
    | _ => none
  | .stop =>
    if s.destructor = .outside then some { s with stop := true, destructor := .notifying }
    else none
  | .notifyAll =>
    if s.destructor = .notifying then
      some { s with worker := fun w => (s.worker w).notified, destructor := .joining 0 }
    else none
  | .join =>
    match s.destructor with
    | .joining joined =>
      if h : joined < workers then
        if s.worker ⟨joined, h⟩ = .exited then some { s with destructor := .joining (joined + 1) }
        else none
      else none
    | _ => none

/-- What a step can do. -/
inductive Step (s : ThreadPool workers Task) :
    Action workers Task → ThreadPool workers Task → Prop
  | accept {t : Task} (ht : s.enqueue t = .outside) (hstop : s.stop = false) :
    Step s (.enqueue t) ({ s with tasks := s.tasks ++ [t] }.setEnqueue t .notifying)
  | refuse {t : Task} (ht : s.enqueue t = .outside) (hstop : s.stop = true) :
    Step s (.enqueue t) (s.setEnqueue t .threw)
  | notify {t : Task} {w : Fin workers} (ht : s.enqueue t = .notifying)
    (hw : s.worker w = .waiting) :
    Step s (.notifyOne t (some w)) ((s.setEnqueue t .returned).setWorker w .ready)
  | notifyNobody {t : Task} (ht : s.enqueue t = .notifying) (hnone : ∀ w, s.worker w ≠ .waiting) :
    Step s (.notifyOne t none) (s.setEnqueue t .returned)
  | sleep {w : Fin workers} (hw : s.worker w = .ready) (hstop : s.stop = false)
    (htasks : s.tasks = []) : Step s (.dequeue w) (s.setWorker w .waiting)
  | exit {w : Fin workers} (hw : s.worker w = .ready) (hstop : s.stop = true)
    (htasks : s.tasks = []) : Step s (.dequeue w) (s.setWorker w .exited)
  | take {w : Fin workers} {t : Task} {rest : List Task} (hw : s.worker w = .ready)
    (htasks : s.tasks = t :: rest) :
    Step s (.dequeue w) ({ s with tasks := rest }.setWorker w (.running t))
  | wakeUp {w : Fin workers} (hw : s.worker w = .waiting) :
    Step s (.wakeUp w) (s.setWorker w .ready)
  | finish {w : Fin workers} {t : Task} (hw : s.worker w = .running t) :
    Step s (.finish w) (s.setWorker w .ready)
  | stop (hd : s.destructor = .outside) :
    Step s .stop { s with stop := true, destructor := .notifying }
  | notifyAll (hd : s.destructor = .notifying) : Step s .notifyAll
    { s with worker := fun w => (s.worker w).notified, destructor := .joining 0 }
  | join {w : Fin workers} (hd : s.destructor = .joining w) (hw : s.worker w = .exited) :
    Step s .join { s with destructor := .joining (w + 1) }

theorem step_cases {s s' : ThreadPool workers Task} {action : Action workers Task}
    (h : s.step action = some s') : s.Step action s' := by
  cases action with
  | enqueue t =>
    simp only [step] at h
    split_ifs at h with ht hstop
    · cases h
      exact .refuse ht hstop
    · cases h
      exact .accept ht (by simpa using hstop)
  | notifyOne t woken =>
    cases woken with
    | none =>
      simp only [step] at h
      split_ifs at h with ht hnone
      cases h
      exact .notifyNobody ht hnone
    | some w =>
      simp only [step] at h
      split_ifs at h with ht hw
      cases h
      exact .notify ht hw
  | dequeue w =>
    -- the section of a worker: sleep, exit or take the first task
    simp only [step] at h
    split_ifs at h with hw
    cases h
    rw [workerSection]
    cases htasks : s.tasks with
    | nil =>
      cases hstop : s.stop with
      | false => exact .sleep hw hstop htasks
      | true => exact .exit hw hstop htasks
    | cons t rest =>
      rw [if_pos (Or.inr (by simp))]
      exact .take hw htasks
  | wakeUp w =>
    simp only [step] at h
    split_ifs at h with hw
    cases h
    exact .wakeUp hw
  | finish w =>
    simp only [step] at h
    split at h
    · next t hw =>
      cases h
      exact .finish hw
    · cases h
  | stop =>
    simp only [step] at h
    split_ifs at h with hd
    cases h
    exact .stop hd
  | notifyAll =>
    simp only [step] at h
    split_ifs at h with hd
    cases h
    exact .notifyAll hd
  | join =>
    simp only [step] at h
    split at h
    · next joined hd =>
      split_ifs at h with hlt hw
      cases h
      exact Step.join (w := ⟨joined, hlt⟩) hd hw
    · cases h

end ThreadPool

end AcademiaCr.Backend
