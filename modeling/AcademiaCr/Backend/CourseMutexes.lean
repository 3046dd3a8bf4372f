import AcademiaCr.Backend.Locks
import AcademiaCr.Backend.Traces

/-!
# One mutex per course

Threads that miss in the shared section of `get_course_mutex` all come to the exclusive one,
where the first of them inserts a mutex and the others find it. The map only grows, and every
mutex in it has one course.

## Main definitions

- `Happening.returned`: the course and the mutex of a call of `get_course_mutex` that returns
- `Server.Numbered`: the mutexes of the map are different ones
- `one_mutex_per_course`
-/

namespace AcademiaCr.Backend

open Transition

variable {ι : Type}

/-- The call of `get_course_mutex` that returns with a step: its course and the mutex. -/
def Happening.returned (e : Happening ι) : Option (Int × Nat) :=
  match (e.before.threads e.thread).phase, (e.after.threads e.thread).phase with
  | .find _ c, .lock _ m => some (c, m)
  | .emplace _ c, .lock _ m => some (c, m)
  | _, _ => none

namespace Server

/-- The mutexes of the map have the numbers in which they were created. -/
def Numbered (s : Server ι) : Prop :=
  s.courseMutexes.map (·.2) = List.range s.courseMutexes.length

section

variable [DecidableEq ι] {s s' : Server ι} {i : ι} {now : Int}

/-- Entries are added at the end, and none is taken away. -/
theorem Moves.grows (hm : Moves s i now s') : s.courseMutexes <+: s'.courseMutexes := by
  cases hm with
  | create => exact List.prefix_append _ _
  | start | found | missing | acquire | call | done | leave | release => exact List.prefix_refl _

theorem Moves.numbered (hm : Moves s i now s') (h : s.Numbered) : s'.Numbered := by
  cases hm with
  | @create r c =>
    show (s.courseMutexes ++ [(c, s.courseMutexes.length)]).map (·.2) =
      List.range (s.courseMutexes ++ [(c, s.courseMutexes.length)]).length
    rw [List.map_append, h, List.length_append, List.length_singleton, List.range_succ]
    rfl
  | start | found | missing | acquire | call | done | leave | release => exact h

/-- A call returns an entry of the map. -/
theorem Moves.mem_of_returned (hm : Moves s i now s') {c : Int} {m : Nat}
    (h : Happening.returned ⟨s, (i, now), s'⟩ = some (c, m)) : (c, m) ∈ s'.courseMutexes := by
  simp only [Happening.returned, Happening.thread] at h
  cases hm with
  | found hp hmutex =>
    rw [setPhase_self] at h
    rcases hp with hp | hp <;> rw [hp] at h <;> cases h <;> exact mem_of_mutexOf hmutex
  | create hp hmutex =>
    rw [setPhase_self, hp] at h
    cases h
    exact List.mem_append_right _ List.mem_cons_self
  | start hp | missing hp | acquire hp | call hp | done hp | leave hp | release hp =>
    simp [hp] at h

end

/-- The entry of a course is found. -/
theorem mutexOf_of_mem {s : Server ι} (h : (s.courseMutexes.map (·.1)).Nodup) {c : Int} {m : Nat}
    (hmem : (c, m) ∈ s.courseMutexes) : s.mutexOf c = some m := by
  cases hfound : s.mutexOf c with
  | none => exact absurd (List.mem_map_of_mem (f := (·.1)) hmem) (notMem_of_mutexOf hfound)
  | some n =>
    have hsame := List.inj_on_of_nodup_map h (mem_of_mutexOf hfound) hmem rfl
    rw [(Prod.mk.inj hsame).2]

/-! ## Runs -/

section

variable [DecidableEq ι] {conn : Conn} {todo : ι → List Request} {history : List (Happening ι)}
  {s : Server ι}

theorem locked_of_run (hr : Runs (start conn todo) history s) : s.Locked := by
  induction hr with
  | start => exact Locked.start conn todo
  | @snoc _ _ _ label _ hstep ih => exact ih.moves (step_moves (i := label.1) hstep)

theorem numbered_of_run (hr : Runs (start conn todo) history s) : s.Numbered := by
  induction hr with
  | start => rfl
  | @snoc _ _ _ label _ hstep ih => exact (step_moves (i := label.1) hstep).numbered ih

/-- What a call has returned stays in the map. -/
theorem mem_of_run (hr : Runs (start conn todo) history s) : ∀ e ∈ history, ∀ c m,
    e.returned = some (c, m) → (c, m) ∈ s.courseMutexes := by
  induction hr with
  | start => exact fun e he => absurd he List.not_mem_nil
  | @snoc history s s' label _ hstep ih =>
    have hm := step_moves (i := label.1) hstep
    intro e he c m hreturned
    obtain rfl | he := List.mem_cons.mp he
    · exact hm.mem_of_returned hreturned
    · exact hm.grows.subset (ih e he c m hreturned)

end

end Server

open Server

/-- In every run, two calls return the same mutex if and only if they are for the same course;
what a call has returned is still the mutex of its course; and two threads in the critical
sections of one course are one thread. -/
theorem one_mutex_per_course [DecidableEq ι] {conn : Conn} {todo : ι → List Request}
    {history : List (Happening ι)} {s : Server ι} (hr : Runs (start conn todo) history s) :
    (∀ e ∈ history, ∀ e' ∈ history, ∀ c m c' m', e.returned = some (c, m) →
      e'.returned = some (c', m') → (c = c' ↔ m = m')) ∧
    (∀ e ∈ history, ∀ c m, e.returned = some (c, m) → s.mutexOf c = some m) ∧
    ∀ i j r q c, (s.threads i).phase.critical = some r → r.course = some c →
      (s.threads j).phase.critical = some q → q.course = some c → i = j := by
  have hlocked := locked_of_run hr
  have hnumbers : (s.courseMutexes.map (·.2)).Nodup := by
    rw [numbered_of_run hr]
    exact List.nodup_range
  refine ⟨fun e he e' he' c m c' m' hreturned hreturned' => ?_, fun e he c m hreturned => ?_,
    fun i j r q c => hlocked.exclusive⟩
  · have hmem := mem_of_run hr e he c m hreturned
    have hmem' := mem_of_run hr e' he' c' m' hreturned'
    constructor
    · intro hcourse
      exact (Prod.mk.inj (List.inj_on_of_nodup_map hlocked.courses hmem hmem' hcourse)).2
    · intro hmutex
      exact (Prod.mk.inj (List.inj_on_of_nodup_map hnumbers hmem hmem' hmutex)).1
  · exact mutexOf_of_mem hlocked.courses (mem_of_run hr e he c m hreturned)

/-- Two threads miss in the shared section, and the second one to miss inserts the mutex. Both get
the mutex that has been inserted. -/
theorem bothMiss_one : ∃ history s,
    Runs (start {} fun _ : Fin 2 => [.registerStudent 5 7]) history s ∧
      history.filterMap Happening.returned = [(7, 0), (7, 0)] ∧ s.mutexOf 7 = some 0 := by
  have hr : Runs (start {} fun _ : Fin 2 => [.registerStudent 5 7]) _ _ :=
    replay_run Run.start (show replay Server.step [] (start _ _)
      [(0, 0), (1, 0), (0, 0), (1, 0), (1, 0), (0, 0)] = some _ from rfl)
  exact ⟨_, _, hr, rfl, (one_mutex_per_course hr).2.1 _ List.mem_cons_self 7 0 rfl⟩

end AcademiaCr.Backend
