import AcademiaCr.Backend.ThreadPool

/-!
# What a run of the thread pool does with its tasks

Every accepted task is in the queue, or has been taken from it, in the order of acceptance, and
is being run or finished. A worker exits only when the pool is stopped and the queue is empty,
which then never changes.

## Main definitions

- `PoolRun`: the runs of a pool
- `accepted`, `taken`, `finished`: the tasks, oldest first, to which this has happened
- `ThreadPool.running`: the tasks that workers are executing
- `Accounted`: where the accepted tasks are, `Draining`: when workers exit
- `tasks_accounted`
-/

namespace AcademiaCr.Backend

open Transition Tally ThreadPool

variable {workers : Nat} {Task : Type}

/-- The runs of a pool that is constructed with the given number of threads. -/
abbrev PoolRun (numThreads : Nat) (Task : Type) [DecidableEq Task]
    (history : List (Event (ThreadPool (numWorkers numThreads) Task)
      (Action (numWorkers numThreads) Task)))
    (s : ThreadPool (numWorkers numThreads) Task) : Prop :=
  Run step (start (numWorkers numThreads) Task) history s

/-! ## Histories -/

/-- A step of a pool. -/
abbrev PoolEvent (workers : Nat) (Task : Type) :=
  Event (ThreadPool workers Task) (Action workers Task)

/-- The task of a call of `enqueue` whose section does not throw. -/
def acceptedBy (e : PoolEvent workers Task) : Option Task :=
  match e.label with
  | .enqueue t => if e.before.stop then none else some t
  | _ => none

/-- The task that a section of `worker_loop` takes from the queue. -/
def takenBy (e : PoolEvent workers Task) : Option Task :=
  match e.label with
  | .dequeue w => (e.after.worker w).task
  | _ => none

/-- The task that returns. -/
def finishedBy (e : PoolEvent workers Task) : Option Task :=
  match e.label with
  | .finish w => (e.before.worker w).task
  | _ => none

section

variable (s s' : ThreadPool workers Task)

theorem acceptedBy_enqueue (t : Task) :
    acceptedBy ⟨s, .enqueue t, s'⟩ = if s.stop then none else some t := rfl

theorem takenBy_dequeue (w : Fin workers) :
    takenBy ⟨s, .dequeue w, s'⟩ = (s'.worker w).task := rfl

theorem finishedBy_finish (w : Fin workers) :
    finishedBy ⟨s, .finish w, s'⟩ = (s.worker w).task := rfl

end

def accepted (history : List (PoolEvent workers Task)) : List Task :=
  (history.filterMap acceptedBy).reverse

def taken (history : List (PoolEvent workers Task)) : List Task :=
  (history.filterMap takenBy).reverse

def finished (history : List (PoolEvent workers Task)) : List Task :=
  (history.filterMap finishedBy).reverse

section

variable (e : PoolEvent workers Task) (history : List (PoolEvent workers Task))

theorem accepted_cons : accepted (e :: history) = accepted history ++ (acceptedBy e).toList := by
  rw [accepted, List.filterMap_cons]
  cases acceptedBy e <;> simp [accepted]

theorem taken_cons : taken (e :: history) = taken history ++ (takenBy e).toList := by
  rw [taken, List.filterMap_cons]
  cases takenBy e <;> simp [taken]

theorem finished_cons : finished (e :: history) = finished history ++ (finishedBy e).toList := by
  rw [finished, List.filterMap_cons]
  cases finishedBy e <;> simp [finished]

end

/-! ## Tasks -/

/-- The tasks that workers are executing. -/
def ThreadPool.running (s : ThreadPool workers Task) : Multiset Task :=
  tally (fun x => (x.task.toList : Multiset Task)) s.worker

/-- Where the accepted tasks are. -/
structure Accounted (history : List (PoolEvent workers Task)) (s : ThreadPool workers Task) :
    Prop where
  order : accepted history = taken history ++ s.tasks
  ledger : (taken history : Multiset Task) = finished history + s.running
  entered : ∀ t ∈ accepted history, s.enqueue t = .notifying ∨ s.enqueue t = .returned
  nodup : (accepted history).Nodup

section

variable {s s' : ThreadPool workers Task} {history : List (PoolEvent workers Task)}
  {e : PoolEvent workers Task}

/-- A worker that goes on takes its old task out of the sum and brings its new one. -/
theorem running_setWorker (s : ThreadPool workers Task) (w : Fin workers) (x : Worker Task) :
    (s.setWorker w x).running + ((s.worker w).task.toList : Multiset Task) =
      s.running + (x.task.toList : Multiset Task) :=
  tally_update _ _ w x

theorem running_setWorker_idle {w : Fin workers} {x : Worker Task} (hw : (s.worker w).task = none)
    (hx : x.task = none) : (s.setWorker w x).running = s.running := by
  have h := running_setWorker s w x
  rw [hw, hx] at h
  exact add_right_cancel h

theorem running_notified (s : ThreadPool workers Task) (d : Destructor) :
    ({ s with worker := fun w => (s.worker w).notified, destructor := d } :
      ThreadPool workers Task).running = s.running := by
  have htask : ∀ x : Worker Task, x.notified.task = x.task := by
    intro x
    cases x <;> rfl
  simp only [running, tally, htask]

/-- A step that moves no task. -/
theorem Accounted.same (h : Accounted history s) (ha : acceptedBy e = none)
    (ht : takenBy e = none) (hf : finishedBy e = none) (htasks : s'.tasks = s.tasks)
    (hrunning : s'.running = s.running)
    (hentered : ∀ t, s.enqueue t = .notifying ∨ s.enqueue t = .returned →
      s'.enqueue t = .notifying ∨ s'.enqueue t = .returned) : Accounted (e :: history) s' where
  order := by
    rw [accepted_cons, taken_cons, ha, ht, htasks]
    simpa using h.order
  ledger := by
    rw [taken_cons, finished_cons, ht, hf, hrunning]
    simpa using h.ledger
  entered := by
    rw [accepted_cons, ha]
    exact fun t hmem => hentered t (h.entered t (by simpa using hmem))
  nodup := by
    rw [accepted_cons, ha]
    simpa using h.nodup

/-- A call that has not entered its section is not accepted yet. -/
theorem Accounted.notMem (h : Accounted history s) {t : Task} (ht : s.enqueue t = .outside) :
    t ∉ accepted history := by
  intro hmem
  have hcall := h.entered t hmem
  simp [ht] at hcall

/-- A task moves from the queue to the worker. -/
theorem Accounted.take (h : Accounted history s) {w : Fin workers} {t : Task} {rest : List Task}
    (hw : s.worker w = .ready) (htasks : s.tasks = t :: rest) :
    Accounted (⟨s, .dequeue w, { s with tasks := rest }.setWorker w (.running t)⟩ :: history)
      ({ s with tasks := rest }.setWorker w (.running t)) := by
  have hby : takenBy (⟨s, .dequeue w, { s with tasks := rest }.setWorker w (.running t)⟩ :
      PoolEvent workers Task) = some t := by
    rw [takenBy_dequeue, setWorker_self]
    rfl
  have hrunning :
      ({ s with tasks := rest }.setWorker w (.running t)).running = s.running + {t} := by
    have htally := running_setWorker { s with tasks := rest } w (.running t)
    rw [show (({ s with tasks := rest } : ThreadPool workers Task).worker w).task = none from by
      rw [hw]; rfl] at htally
    rw [show ({ s with tasks := rest } : ThreadPool workers Task).running = s.running from rfl]
      at htally
    simpa [Worker.task] using htally
  refine ⟨?_, ?_, ?_, ?_⟩
  · rw [accepted_cons, taken_cons, hby, h.order, htasks]
    simp [acceptedBy]
  · rw [taken_cons, hby, finished_cons, hrunning, ← add_assoc]
    simpa [finishedBy, ← Multiset.coe_add] using h.ledger
  · rw [accepted_cons]
    exact fun u hu => h.entered u (by simpa [acceptedBy] using hu)
  · rw [accepted_cons]
    simpa [acceptedBy] using h.nodup

/-- A task moves from the worker to the finished ones. -/
theorem Accounted.finish (h : Accounted history s) {w : Fin workers} {t : Task}
    (hw : s.worker w = .running t) :
    Accounted (⟨s, .finish w, s.setWorker w .ready⟩ :: history) (s.setWorker w .ready) := by
  have hby : finishedBy (⟨s, .finish w, s.setWorker w .ready⟩ : PoolEvent workers Task) =
      some t := by
    rw [finishedBy_finish, hw]
    rfl
  have hrunning : (s.setWorker w .ready).running + {t} = s.running := by
    have htally := running_setWorker s w .ready
    rw [hw] at htally
    simpa [Worker.task] using htally
  refine ⟨?_, ?_, ?_, ?_⟩
  · rw [accepted_cons, taken_cons]
    simpa [acceptedBy, takenBy] using h.order
  · have hledger := h.ledger
    rw [← hrunning, ← add_assoc, add_right_comm] at hledger
    rw [taken_cons, finished_cons, hby]
    simpa [takenBy, ← Multiset.coe_add] using hledger
  · rw [accepted_cons]
    exact fun u hu => h.entered u (by simpa [acceptedBy] using hu)
  · rw [accepted_cons]
    simpa [acceptedBy] using h.nodup

variable [DecidableEq Task]

/-- A call that is in its section, or through it, is still there when another one goes on. -/
theorem entered_setEnqueue {t u : Task} {x : Enqueue} (hx : x = .notifying ∨ x = .returned)
    (hu : s.enqueue u = .notifying ∨ s.enqueue u = .returned) :
    (s.setEnqueue t x).enqueue u = .notifying ∨ (s.setEnqueue t x).enqueue u = .returned := by
  by_cases hut : u = t
  · rwa [hut, setEnqueue_self]
  · rwa [setEnqueue_ne _ hut]

/-- A task enters the queue, at its end. -/
theorem Accounted.accept (h : Accounted history s) {t : Task} (ht : s.enqueue t = .outside)
    (hstop : s.stop = false) :
    Accounted
      (⟨s, .enqueue t, { s with tasks := s.tasks ++ [t] }.setEnqueue t .notifying⟩ :: history)
      ({ s with tasks := s.tasks ++ [t] }.setEnqueue t .notifying) := by
  have hby : ∀ s', acceptedBy (⟨s, .enqueue t, s'⟩ : PoolEvent workers Task) = some t := by
    intro s'
    rw [acceptedBy_enqueue, hstop]
    rfl
  refine ⟨?_, ?_, ?_, ?_⟩
  · rw [accepted_cons, hby, taken_cons, h.order]
    simp [takenBy]
  · rw [taken_cons, finished_cons]
    have hrunning : ({ s with tasks := s.tasks ++ [t] }.setEnqueue t .notifying).running =
        s.running := rfl
    rw [hrunning]
    simpa [takenBy, finishedBy] using h.ledger
  · rw [accepted_cons, hby]
    intro u hu
    obtain hu | hu := List.mem_append.mp hu
    · exact entered_setEnqueue (Or.inl rfl) (h.entered u hu)
    · rw [List.mem_singleton.mp hu]
      exact Or.inl (setEnqueue_self _)
  · rw [accepted_cons, hby]
    simpa using h.nodup.concat (h.notMem ht)

theorem Accounted.step (h : Accounted history s) {action : Action workers Task}
    (hs : s.Step action s') : Accounted (⟨s, action, s'⟩ :: history) s' := by
  cases hs with
  | accept ht hstop => exact h.accept ht hstop
  | @refuse t ht hstop =>
    refine h.same (by rw [acceptedBy_enqueue, hstop]; rfl) rfl rfl rfl rfl fun u hu => ?_
    have hut : u ≠ t := by
      rintro rfl
      simp [ht] at hu
    rwa [setEnqueue_ne _ hut]
  | notify ht hw =>
    refine h.same rfl rfl rfl rfl ?_ fun _ => entered_setEnqueue (Or.inr rfl)
    exact running_setWorker_idle (by rw [setEnqueue_worker, hw]; rfl) rfl
  | notifyNobody ht hnone =>
    exact h.same rfl rfl rfl rfl rfl fun _ => entered_setEnqueue (Or.inr rfl)
  | sleep hw hstop htasks =>
    exact h.same rfl (by rw [takenBy_dequeue, setWorker_self]; rfl) rfl rfl
      (running_setWorker_idle (by rw [hw]; rfl) rfl) fun _ => id
  | exit hw hstop htasks =>
    exact h.same rfl (by rw [takenBy_dequeue, setWorker_self]; rfl) rfl rfl
      (running_setWorker_idle (by rw [hw]; rfl) rfl) fun _ => id
  | take hw htasks => exact h.take hw htasks
  | wakeUp hw =>
    exact h.same rfl rfl rfl rfl (running_setWorker_idle (by rw [hw]; rfl) rfl) fun _ => id
  | finish hw => exact h.finish hw
  | stop => exact h.same rfl rfl rfl rfl rfl fun _ => id
  | notifyAll => exact h.same rfl rfl rfl rfl (running_notified s _) fun _ => id
  | join => exact h.same rfl rfl rfl rfl rfl fun _ => id

end

/-! ## The end of a pool -/

/-- Workers exit when the pool is stopped and nothing is left to do; `notify_all` has woken all
of them when the destructor waits for them. -/
structure Draining (s : ThreadPool workers Task) : Prop where
  stopped : s.destructor ≠ .outside → s.stop = true
  exited : ∀ w, s.worker w = .exited → s.stop = true ∧ s.tasks = []
  joined : ∀ k, s.destructor = .joining k → ∀ w : Fin workers, w < k → s.worker w = .exited
  awake : ∀ k, s.destructor = .joining k → ∀ w, s.worker w ≠ .waiting

section

variable [DecidableEq Task] {s s' : ThreadPool workers Task}

omit [DecidableEq Task] in
/-- A worker that has not exited moves on, but not to the waiting set of a stopped pool. -/
theorem Draining.setWorker (h : Draining s) {w : Fin workers} {x : Worker Task}
    (hw : s.worker w ≠ .exited) (hexit : x = .exited → s.stop = true ∧ s.tasks = [])
    (hwait : x = .waiting → s.stop = false) : Draining (s.setWorker w x) where
  stopped := h.stopped
  exited v hv := by
    by_cases hvw : v = w
    · rw [hvw, setWorker_self] at hv
      exact hexit hv
    · rw [setWorker_ne _ hvw] at hv
      exact h.exited v hv
  joined k hk v hlt := by
    have hv := h.joined k hk v hlt
    by_cases hvw : v = w
    · rw [hvw] at hv
      exact absurd hv hw
    · rw [setWorker_ne _ hvw, hv]
  awake k hk v := by
    by_cases hvw : v = w
    · rw [hvw, setWorker_self]
      intro hx
      have hstop := h.stopped (by rw [show s.destructor = .joining k from hk]; simp)
      rw [hwait hx] at hstop
      cases hstop
    · rw [setWorker_ne _ hvw]
      exact h.awake k hk v

theorem Draining.step (h : Draining s) {action : Action workers Task} (hs : s.Step action s') :
    Draining s' := by
  cases hs with
  | accept ht hstop =>
    -- a worker exits only after the stop
    have hnone : ∀ w, s.worker w ≠ .exited := by
      intro w hw
      have hstopped := (h.exited w hw).1
      rw [hstop] at hstopped
      cases hstopped
    exact ⟨h.stopped, fun w hw => absurd hw (hnone w), h.joined, h.awake⟩
  | refuse | notifyNobody => exact ⟨h.stopped, h.exited, h.joined, h.awake⟩
  | @notify t w ht hw =>
    have hmid : Draining (s.setEnqueue t .returned) := ⟨h.stopped, h.exited, h.joined, h.awake⟩
    exact hmid.setWorker (by rw [setEnqueue_worker, hw]; simp) (by simp) (by simp)
  | sleep hw hstop htasks => exact h.setWorker (by rw [hw]; simp) (by simp) fun _ => hstop
  | exit hw hstop htasks =>
    exact h.setWorker (by rw [hw]; simp) (fun _ => ⟨hstop, htasks⟩) (by simp)
  | @take w t rest hw htasks =>
    have hnone : ∀ w, s.worker w ≠ .exited := by
      intro v hv
      have hempty := (h.exited v hv).2
      rw [htasks] at hempty
      cases hempty
    have hmid : Draining ({ s with tasks := rest } : ThreadPool workers Task) :=
      ⟨h.stopped, fun v hv => absurd hv (hnone v), h.joined, h.awake⟩
    exact hmid.setWorker (hnone w) (by simp) (by simp)
  | wakeUp hw => exact h.setWorker (by rw [hw]; simp) (by simp) (by simp)
  | finish hw => exact h.setWorker (by rw [hw]; simp) (by simp) (by simp)
  | stop hd =>
    refine ⟨fun _ => rfl, fun w hw => ⟨rfl, (h.exited w hw).2⟩, fun k hk => ?_, fun k hk => ?_⟩ <;>
      cases hk
  | notifyAll hd =>
    -- from here on no worker waits, and none will again
    have hexited : ∀ x : Worker Task, x.notified = .exited → x = .exited := by
      intro x hx
      cases x <;> first | rfl | cases hx
    refine ⟨fun _ => h.stopped (by rw [hd]; simp), fun w hw => h.exited w (hexited _ hw),
      fun k hk w hlt => ?_, fun k _ w => ?_⟩
    · cases hk
      exact absurd hlt (Nat.not_lt_zero _)
    · show (s.worker w).notified ≠ .waiting
      cases s.worker w <;> simp [Worker.notified]
  | @join w hd hw =>
    refine ⟨fun _ => h.stopped (by rw [hd]; simp), h.exited, fun k hk v hlt => ?_,
      fun k _ => h.awake w hd⟩
    cases hk
    obtain hlt | heq := Nat.lt_succ_iff_lt_or_eq.mp hlt
    · exact h.joined w hd v hlt
    · rw [Fin.ext heq, hw]

end

/-! ## Runs -/

section

variable {numThreads : Nat} [DecidableEq Task]
  {history : List (PoolEvent (numWorkers numThreads) Task)}
  {s : ThreadPool (numWorkers numThreads) Task}

theorem accounted_of_run (hr : PoolRun numThreads Task history s) : Accounted history s := by
  induction hr with
  | start =>
    refine ⟨rfl, ?_, by simp [accepted], List.nodup_nil⟩
    have hnone : (start (numWorkers numThreads) Task).running = 0 := tally_eq_zero fun _ => rfl
    rw [hnone]
    rfl
  | snoc _ hstep ih => exact ih.step (step_cases hstep)

theorem draining_of_run (hr : PoolRun numThreads Task history s) : Draining s := by
  induction hr with
  | start =>
    exact ⟨fun h => absurd rfl h, fun _ hw => (nomatch hw), fun _ hk => (nomatch hk),
      fun _ hk => (nomatch hk)⟩
  | snoc _ hstep ih => exact ih.step (step_cases hstep)

/-- A call that has thrown stays so. -/
theorem threw_of_run (hr : PoolRun numThreads Task history s) : ∀ e ∈ history, ∀ t,
    e.after.enqueue t = .threw → s.enqueue t = .threw := by
  induction hr with
  | start => simp
  | @snoc history s s' action hr hstep ih =>
    intro e he t ht
    obtain rfl | he := List.mem_cons.mp he
    · exact ht
    have hold := ih e he t ht
    have hkept : ∀ {u : Task} {x}, s.enqueue u ≠ .threw →
      (s.setEnqueue u x).enqueue t = .threw := by
      intro u x hu
      have htu : t ≠ u := by
        rintro rfl
        exact hu hold
      rw [setEnqueue_ne _ htu, hold]
    cases step_cases hstep with
    | accept hu | refuse hu | notify hu | notifyNobody hu => exact hkept (by rw [hu]; simp)
    | sleep | exit | take | wakeUp | finish | stop | notifyAll | join => exact hold

/-- What a call that throws does. -/
theorem refused_of_run (hr : PoolRun numThreads Task history s) : ∀ e ∈ history, ∀ t,
    e.label = .enqueue t → e.after.enqueue t = .threw →
      e.after.tasks = e.before.tasks ∧ t ∉ accepted history := by
  intro e he t hlabel ht
  have hstep := step_cases (hr.step_of_mem e he)
  rw [hlabel] at hstep
  refine ⟨?_, fun hmem => ?_⟩
  · generalize e.after = after at hstep ht
    cases hstep with
    | accept => simp at ht
    | refuse => rfl
  · have hentered := (accounted_of_run hr).entered t hmem
    rw [threw_of_run hr e he t ht] at hentered
    simp at hentered

/-- In every run: the accepted tasks, all different, are the finished ones, those being run and
those in the queue; they are taken in the order of acceptance; a call that throws adds nothing;
and when the destructor has joined all workers, every accepted task has been run. -/
theorem tasks_accounted (hr : PoolRun numThreads Task history s) :
    (accepted history).Nodup ∧
    (accepted history : Multiset Task) = finished history + s.running + s.tasks ∧
    accepted history = taken history ++ s.tasks ∧
    (∀ e ∈ history, ∀ t, e.label = .enqueue t → e.after.enqueue t = .threw →
      e.after.tasks = e.before.tasks ∧ t ∉ accepted history) ∧
    (s.destructor = .joining (numWorkers numThreads) →
      s.tasks = [] ∧ (finished history).Perm (accepted history)) := by
  have ha := accounted_of_run hr
  have hd := draining_of_run hr
  have hledger : (accepted history : Multiset Task) = finished history + s.running + s.tasks := by
    rw [ha.order, ← Multiset.coe_add, ha.ledger]
  refine ⟨ha.nodup, hledger, ha.order, refused_of_run hr, fun hjoined => ?_⟩
  have hexited : ∀ w, s.worker w = .exited := fun w => hd.joined _ hjoined w w.isLt
  have hempty : s.tasks = [] := (hd.exited ⟨0, numWorkers_pos _⟩ (hexited _)).2
  have hnone : s.running = 0 := by
    refine tally_eq_zero fun w => ?_
    rw [hexited w]
    rfl
  refine ⟨hempty, Multiset.coe_eq_coe.mp ?_⟩
  rw [hledger, hempty, hnone]
  simp

end

/-- The worker of a pool of one. -/
def onlyWorker : Fin (numWorkers 1) := ⟨0, by decide⟩

/-- Two calls, one after the stop, and the end of a pool of one worker. -/
def shutdown : List (Action (numWorkers 1) Nat) :=
  [.enqueue 7, .stop, .enqueue 8, .notifyAll, .notifyOne 7 none, .dequeue onlyWorker,
    .finish onlyWorker, .dequeue onlyWorker, .join]

/-- The task that was accepted before the stop has run when the destructor returns. -/
theorem shutdown_accounted : ∃ history s, PoolRun 1 Nat history s ∧ accepted history = [7] ∧
    s.tasks = [] ∧ (finished history).Perm (accepted history) := by
  have hr : PoolRun 1 Nat _ _ := replay_run Run.start
    (show replay step [] (start (numWorkers 1) Nat) shutdown = some _ from rfl)
  exact ⟨_, _, hr, rfl, (tasks_accounted hr).2.2.2.2 rfl⟩

end AcademiaCr.Backend
