import AcademiaCr.Backend.PoolRuns
import AcademiaCr.Library.Monitor

/-!
# No wake-up of the thread pool is lost

The workers are threads that wait for a condition. While one of them waits, the tasks for which
no call is about to notify are no more than the workers that are about to look at the queue: a
task comes with a notification, a notification makes a worker ready, and a ready worker takes a
task or finds none.

## Main definitions

- `Worker.thread`: a worker, as a thread that waits for a task
- `notifyingCalls`: the calls that are about to notify
- `Awaited`: the invariant
- `no_lost_wakeup`
-/

namespace AcademiaCr.Backend

open Monitor Transition ThreadPool

variable {workers : Nat} {Task : Type}

/-- A worker as a thread, with the task that it executes. -/
def Worker.thread : Worker Task → Thread (Option Task)
  | .ready => .active none
  | .waiting => .waiting none
  | .running task => .active (some task)
  | .exited => .finished

/-- The workers as threads. -/
def ThreadPool.threads (s : ThreadPool workers Task) : Fin workers → Thread (Option Task) :=
  fun w => (s.worker w).thread

/-- The calls between their section and `notify_one`. -/
def notifyingCalls (history : List (PoolEvent workers Task)) (s : ThreadPool workers Task) : Nat :=
  (accepted history).countP fun t => s.enqueue t = .notifying

/-- While a worker waits, every task in the queue has somebody who will see to it. -/
def Awaited (history : List (PoolEvent workers Task)) (s : ThreadPool workers Task) : Prop :=
  Signalled Option.isNone (s.tasks.length - notifyingCalls history s) s.threads

section

variable {s s' : ThreadPool workers Task} {history : List (PoolEvent workers Task)}

theorem waits_thread {x : Worker Task} : x.thread.Waits ↔ x = .waiting := by
  cases x with
  | waiting => exact iff_of_true Thread.waits_waiting rfl
  | ready | running => exact iff_of_false Thread.not_waits_active (by simp)
  | exited => exact iff_of_false Thread.not_waits_finished (by simp)

theorem thread_notified (x : Worker Task) : x.notified.thread = x.thread.awake := by
  cases x <;> rfl

theorem threads_setWorker (s : ThreadPool workers Task) (w : Fin workers) (x : Worker Task) :
    (s.setWorker w x).threads = Function.update s.threads w x.thread := by
  funext v
  by_cases hv : v = w
  · subst hv
    rw [Function.update_self, threads, setWorker_self]
  · rw [Function.update_of_ne hv, threads, setWorker_ne _ hv, threads]

variable [DecidableEq Task]

/-- A call that is not counted does not change the count. -/
theorem countP_setEnqueue_of_notMem {tasks : List Task} {t : Task} (ht : t ∉ tasks) (x : Enqueue) :
    tasks.countP (fun u => (s.setEnqueue t x).enqueue u = .notifying) =
      tasks.countP (fun u => s.enqueue u = .notifying) := by
  refine List.countP_congr fun u hu => ?_
  have hut : u ≠ t := by
    rintro rfl
    exact ht hu
  rw [setEnqueue_ne _ hut]

/-- A call that goes on takes at most itself out of the count. -/
theorem countP_setEnqueue (s : ThreadPool workers Task) {tasks : List Task} (hn : tasks.Nodup)
    (t : Task) (x : Enqueue) :
    tasks.countP (fun u => s.enqueue u = .notifying) ≤
      tasks.countP (fun u => (s.setEnqueue t x).enqueue u = .notifying) + 1 := by
  induction tasks with
  | nil => exact Nat.zero_le _
  | cons u tasks ih =>
    obtain ⟨hu, hn⟩ := List.nodup_cons.mp hn
    simp only [List.countP_cons]
    by_cases hut : u = t
    · subst hut
      rw [countP_setEnqueue_of_notMem hu]
      split_ifs <;> omega
    · rw [setEnqueue_ne _ hut]
      have := ih hn
      omega

/-- The call that is accepted will notify. -/
theorem notifyingCalls_accept {t : Task} (ht : s.enqueue t = .outside) (hstop : s.stop = false)
    (h : Accounted history s) (after : ThreadPool workers Task) :
    notifyingCalls (⟨s, .enqueue t, after⟩ :: history) (s.setEnqueue t .notifying) =
      notifyingCalls history s + 1 := by
  have hby : acceptedBy (⟨s, .enqueue t, after⟩ : PoolEvent workers Task) = some t := by
    rw [acceptedBy_enqueue, hstop]
    rfl
  rw [notifyingCalls, accepted_cons, hby, List.countP_append,
    countP_setEnqueue_of_notMem (h.notMem ht)]
  simp [notifyingCalls]

theorem Awaited.step (h : Awaited history s) (ha : Accounted history s)
    {action : Action workers Task} (hs : s.Step action s') :
    Awaited (⟨s, action, s'⟩ :: history) s' := by
  have hcount : ∀ {action} {s₁ : ThreadPool workers Task}, acceptedBy ⟨s, action, s₁⟩ = none →
      ∀ s₂ : ThreadPool workers Task, notifyingCalls (⟨s, action, s₁⟩ :: history) s₂ =
        notifyingCalls history s₂ := by
    intro action s₁ hnone s₂
    rw [notifyingCalls, accepted_cons, hnone]
    simp [notifyingCalls]
  unfold Awaited at h ⊢
  cases hs with
  | @accept t ht hstop =>
    -- one more task, and one more call that will notify for it
    have hnew := notifyingCalls_accept ht hstop ha ({ s with tasks := s.tasks ++ [t] }.setEnqueue t
      .notifying)
    refine h.mono ?_
    show (s.tasks ++ [t]).length - notifyingCalls _ (s.setEnqueue t .notifying) ≤ _
    rw [hnew, List.length_append, List.length_singleton]
    omega
  | @refuse t ht hstop =>
    rw [hcount (by rw [acceptedBy_enqueue, hstop]; rfl), notifyingCalls,
      countP_setEnqueue_of_notMem (ha.notMem ht)]
    exact h
  | @notify t w ht hw =>
    -- the call is spent, and has made a worker ready
    have hle := countP_setEnqueue s ha.nodup t .returned
    rw [hcount rfl, threads_setWorker]
    refine h.update Thread.not_waits_active ?_
    have hthread : s.threads w = .waiting none := congrArg Worker.thread hw
    rw [hthread]
    show s.tasks.length - notifyingCalls history (s.setEnqueue t .returned) + 0 ≤
      s.tasks.length - notifyingCalls history s + 1
    simp only [notifyingCalls]
    omega
  | notifyNobody ht hnone => exact fun ⟨w, hw⟩ => absurd (waits_thread.mp hw) (hnone w)
  | sleep hw hstop htasks =>
    rw [setWorker_tasks, htasks, List.length_nil, Nat.zero_sub]
    exact Signalled.zero _
  | exit hw hstop htasks =>
    rw [setWorker_tasks, htasks, List.length_nil, Nat.zero_sub]
    exact Signalled.zero _
  | @take w t rest hw htasks =>
    -- one task less, and one ready worker less
    rw [hcount rfl, threads_setWorker]
    have hthread : s.threads w = .active none := congrArg Worker.thread hw
    show Signalled _ (rest.length - notifyingCalls history s) (Function.update s.threads w _)
    rw [htasks, List.length_cons] at h
    by_cases hfew : rest.length ≤ notifyingCalls history s
    · rw [Nat.sub_eq_zero_of_le hfew]
      exact Signalled.zero _
    · refine h.update Thread.not_waits_active ?_
      rw [hthread]
      show rest.length - notifyingCalls history s + 1 ≤
        rest.length + 1 - notifyingCalls history s + 0
      omega
  | @wakeUp w hw =>
    rw [hcount rfl, threads_setWorker]
    exact h.wakeUp (congrArg Worker.thread hw)
  | @finish w t hw =>
    rw [hcount rfl, threads_setWorker]
    refine h.update Thread.not_waits_active ?_
    have hthread : s.threads w = .active (some t) := congrArg Worker.thread hw
    rw [hthread]
    exact Nat.le_add_right _ _
  | stop => exact h
  | notifyAll =>
    have hthreads : ThreadPool.threads
        { s with worker := fun w => (s.worker w).notified, destructor := .joining 0 } =
        broadcast s.threads := funext fun w => thread_notified (s.worker w)
    rw [hthreads]
    exact Signalled.of_broadcast _
  | join => exact h

end

/-! ## Runs -/

section

variable {numThreads : Nat} [DecidableEq Task]
  {history : List (PoolEvent (numWorkers numThreads) Task)}
  {s : ThreadPool (numWorkers numThreads) Task}

theorem awaited_of_run (hr : PoolRun numThreads Task history s) : Awaited history s := by
  induction hr with
  | start => exact Signalled.zero _
  | snoc hr hstep ih => exact ih.step (accounted_of_run hr) (step_cases hstep)

/-- In no run is there a task in the queue while all workers that have not exited wait and
nobody is about to notify; and once `notify_all` has been executed, no worker waits. -/
theorem no_lost_wakeup (hr : PoolRun numThreads Task history s) :
    ¬ (s.tasks ≠ [] ∧ (∀ w, s.worker w = .exited ∨ s.worker w = .waiting) ∧
      (∀ t, s.enqueue t ≠ .notifying) ∧ s.destructor ≠ .notifying) ∧
    ∀ joined, s.destructor = .joining joined → ∀ w, s.worker w ≠ .waiting := by
  have hd := draining_of_run hr
  refine ⟨?_, hd.awake⟩
  rintro ⟨htasks, hworkers, hcalls, -⟩
  have hnocalls : notifyingCalls history s = 0 :=
    List.countP_eq_zero.mpr fun t _ => by simpa using hcalls t
  obtain hw | hw := hworkers ⟨0, numWorkers_pos _⟩
  · exact htasks (hd.exited _ hw).2
  · have hnone := (awaited_of_run hr).eq_zero
      (fun v => (hworkers v).imp (congrArg Worker.thread) waits_thread.mpr)
      ⟨_, waits_thread.mpr hw⟩
    rw [hnocalls, Nat.sub_zero] at hnone
    exact htasks (List.length_eq_zero_iff.mp hnone)

end

/-- A worker that sleeps when a task comes, and a stop before it is notified. -/
def lateNotification : List (Action (numWorkers 1) Nat) :=
  [.dequeue onlyWorker, .enqueue 7, .stop, .wakeUp onlyWorker, .notifyAll]

/-- After `notify_all` the worker does not wait. -/
theorem lateNotification_awake : ∃ history s, PoolRun 1 Nat history s ∧ s.tasks = [7] ∧
    ∀ w, s.worker w ≠ .waiting := by
  have hr : PoolRun 1 Nat _ _ := replay_run Run.start
    (show replay step [] (start (numWorkers 1) Nat) lateNotification = some _ from rfl)
  exact ⟨_, _, hr, rfl, (no_lost_wakeup hr).2 0 rfl⟩

end AcademiaCr.Backend
