import AcademiaCr.Backend.Server

/-!
# Mutual exclusion on a course

Two threads are never in the critical sections of the same course. The invariant links the
owners of the mutexes with the phases of the threads and the entries of the mutex map.

## Main definitions

- `Phase.critical`: the request whose critical section a thread is in
- `Server.Locked`: the invariant
- `Server.Locked.exclusive`: mutual exclusion
-/

namespace AcademiaCr.Backend

namespace Phase

/-- The mutex that the thread holds. -/
def holds : Phase → Option Nat
  | body _ held _ => held
  | unlock _ m _ => some m
  | _ => none

/-- The request that the thread executes or has just executed, holding its mutex. -/
def critical : Phase → Option Request
  | body r _ _ | unlock r _ _ => some r
  | _ => none

end Phase

namespace Server

variable {ι : Type}

/-- The mutex that a phase mentions is the one of the course of its request. -/
def Located (s : Server ι) : Phase → Prop
  | .idle => True
  | .find r c | .emplace r c => r.course = some c
  | .lock r m | .unlock r m _ => ∃ c, r.course = some c ∧ (c, m) ∈ s.courseMutexes
  | .body r held _ =>
    match r.course with
    | some c => ∃ m, held = some m ∧ (c, m) ∈ s.courseMutexes
    | none => held = none

/-- A mutex is held by its owner, a course has one mutex, and threads use the right one. -/
structure Locked (s : Server ι) : Prop where
  owners : ∀ i m, (s.threads i).phase.holds = some m ↔ s.owner m = some i
  courses : (s.courseMutexes.map (·.1)).Nodup
  located : ∀ i, s.Located (s.threads i).phase

theorem mem_of_mutexOf {s : Server ι} {c : Int} {m : Nat} (h : s.mutexOf c = some m) :
    (c, m) ∈ s.courseMutexes := by
  simp only [mutexOf, Option.map_eq_some_iff] at h
  obtain ⟨⟨c', m'⟩, hfind, rfl⟩ := h
  have hc : c' = c := by simpa using List.find?_some hfind
  rw [← hc]
  exact List.mem_of_find?_eq_some hfind

theorem notMem_of_mutexOf {s : Server ι} {c : Int} (h : s.mutexOf c = none) :
    c ∉ s.courseMutexes.map (·.1) := by
  simp only [mutexOf, Option.map_eq_none_iff, List.find?_eq_none] at h
  intro hmem
  obtain ⟨e, he, rfl⟩ := List.mem_map.mp hmem
  exact h e he (by simp)

theorem Located.mono {s s' : Server ι} {phase : Phase} (h : s.Located phase)
    (hsub : s.courseMutexes ⊆ s'.courseMutexes) : s'.Located phase := by
  cases phase with
  | idle => trivial
  | find r c | emplace r c => exact h
  | lock r m | unlock r m reply =>
    obtain ⟨c, hc, hm⟩ := h
    exact ⟨c, hc, hsub hm⟩
  | body r held rest =>
    simp only [Located] at h ⊢
    cases hr : r.course with
    | none => simpa only [hr] using h
    | some c =>
      simp only [hr] at h
      obtain ⟨m, hm, hmem⟩ := h
      exact ⟨m, hm, hsub hmem⟩

theorem located_enter (s : Server ι) (r : Request) : s.Located r.enter := by
  unfold Request.enter
  cases hr : r.course with
  | none => simp [Located, hr]
  | some c => exact hr

theorem holds_enter (r : Request) : r.enter.holds = none := by
  unfold Request.enter
  cases r.course <;> rfl

namespace Locked

/-- Two critical sections of one course belong to one thread. -/
theorem exclusive {s : Server ι} (h : s.Locked) {i j : ι} {r q : Request} {c : Int}
    (hi : (s.threads i).phase.critical = some r) (hr : r.course = some c)
    (hj : (s.threads j).phase.critical = some q) (hq : q.course = some c) : i = j := by
  have hheld : ∀ k p, (s.threads k).phase.critical = some p → p.course = some c →
      ∃ m, (c, m) ∈ s.courseMutexes ∧ s.owner m = some k := by
    intro k p hk hp
    have hloc := h.located k
    cases hphase : (s.threads k).phase with
    | idle | find | emplace | lock => rw [hphase] at hk; cases hk
    | body p' held rest =>
      rw [hphase] at hk hloc
      cases hk
      simp only [Located, hp] at hloc
      obtain ⟨m, hm, hmem⟩ := hloc
      exact ⟨m, hmem, (h.owners k m).mp (by rw [hphase]; exact hm)⟩
    | unlock p' m reply =>
      rw [hphase] at hk hloc
      cases hk
      obtain ⟨c', hc', hmem⟩ := hloc
      rw [hp] at hc'
      cases hc'
      exact ⟨m, hmem, (h.owners k m).mp (by rw [hphase]; rfl)⟩
  obtain ⟨m, hm, hmi⟩ := hheld i r hi hr
  obtain ⟨n, hn, hnj⟩ := hheld j q hj hq
  have hmn : (c, m) = (c, n) := List.inj_on_of_nodup_map h.courses hm hn rfl
  cases hmn
  rw [hmi] at hnj
  exact Option.some.inj hnj

theorem start (conn : Conn) (todo : ι → List Request) : (Server.start conn todo).Locked where
  owners i m := by simp [Server.start, Phase.holds]
  courses := List.nodup_nil
  located i := trivial

section Step

variable [DecidableEq ι] {s : Server ι}

/-- A thread that moves without touching any mutex. -/
theorem setThread (h : s.Locked) {i : ι} {t : Thread}
    (hholds : t.phase.holds = (s.threads i).phase.holds) (hloc : s.Located t.phase) :
    (s.setThread i t).Locked where
  owners j m := by
    by_cases hj : j = i
    · subst hj
      rw [setThread_self, hholds]
      exact h.owners j m
    · rw [setThread_ne _ _ _ hj]
      exact h.owners j m
  courses := h.courses
  located j := by
    by_cases hj : j = i
    · subst hj
      rw [setThread_self]
      exact hloc
    · rw [setThread_ne _ _ _ hj]
      exact h.located j

theorem moves (h : s.Locked) {i : ι} {now : Int} {s' : Server ι} (hm : Moves s i now s') :
    s'.Locked := by
  have hloc := h.located i
  cases hm with
  | start hp ht => exact h.setThread (by rw [hp, holds_enter]; rfl) (located_enter s _)
  | found hp hmutex =>
    rcases hp with hp | hp <;> rw [hp] at hloc <;>
      exact h.setThread (by rw [hp]; rfl) ⟨_, hloc, mem_of_mutexOf hmutex⟩
  | missing hp hmutex =>
    rw [hp] at hloc
    exact h.setThread (by rw [hp]; rfl) hloc
  | @create r c hp hmutex =>
    -- a new mutex has a course that had none, under an index that nobody holds
    rw [hp] at hloc
    have hgrown : Locked { s with
        courseMutexes := s.courseMutexes ++ [(c, s.courseMutexes.length)] } :=
      { owners := h.owners
        courses := by
          rw [List.map_append]
          exact List.nodup_append.mpr ⟨h.courses, List.nodup_singleton _, by
            intro a ha b hb
            rw [List.mem_singleton.mp hb]
            rintro rfl
            exact notMem_of_mutexOf hmutex ha⟩
        located := fun j => (h.located j).mono (List.subset_append_left _ _) }
    exact hgrown.setThread (by simp only [hp]; rfl)
      ⟨c, hloc, List.mem_append_right _ (List.mem_singleton.mpr rfl)⟩
  | @acquire r m hp ho =>
    -- the mutex was free, so no other thread can hold it
    rw [hp] at hloc
    obtain ⟨c, hc, hmem⟩ := hloc
    exact {
      owners := by
        intro j n
        by_cases hj : j = i
        · subst hj
          rw [setPhase_self, setPhase_owner]
          by_cases hn : n = m
          · subst hn
            simp [Phase.holds]
          · rw [setOwner_ne _ _ _ hn, ← h.owners j n, hp]
            simp [Phase.holds, Ne.symm hn]
        · rw [setPhase_ne _ _ _ hj, setPhase_owner, setOwner_threads, h.owners j n]
          by_cases hn : n = m
          · subst hn
            simp [ho, Ne.symm hj]
          · rw [setOwner_ne _ _ _ hn]
      courses := h.courses
      located := by
        intro j
        by_cases hj : j = i
        · subst hj
          rw [setPhase_self]
          simp only [Located, hc]
          exact ⟨m, rfl, hmem⟩
        · rw [setPhase_ne _ _ _ hj]
          exact h.located j }
  | @call r held β e next hp =>
    rw [hp] at hloc
    have hconn : Locked { s with conn := (s.conn.exec now e).2 } :=
      ⟨h.owners, h.courses, h.located⟩
    exact hconn.setThread (by simp only [hp]; rfl) hloc
  | done hp => exact h.setThread (by rw [hp]; rfl) trivial
  | leave hp =>
    rw [hp] at hloc
    refine h.setThread (by rw [hp]; rfl) ?_
    simp only [Located] at hloc ⊢
    split at hloc
    · next hc =>
      obtain ⟨_, ⟨⟩, hmem⟩ := hloc
      exact ⟨_, hc, hmem⟩
    · cases hloc
  | @release r m reply hp =>
    -- only the owner gives the mutex back
    exact {
      owners := by
        intro j n
        by_cases hj : j = i
        · subst hj
          rw [finish_self, finish_owner]
          have := h.owners j n
          rw [hp] at this
          by_cases hn : n = m
          · subst hn
            simp [Phase.holds]
          · rw [setOwner_ne _ _ _ hn, ← this]
            simp [Phase.holds, Ne.symm hn]
        · rw [finish_ne _ _ _ _ hj, finish_owner, setOwner_threads, h.owners j n]
          have := (h.owners i m).mp (by rw [hp]; rfl)
          by_cases hn : n = m
          · subst hn
            simp [this, Ne.symm hj]
          · rw [setOwner_ne _ _ _ hn]
      courses := h.courses
      located := by
        intro j
        by_cases hj : j = i
        · subst hj
          rw [finish_self]
          trivial
        · rw [finish_ne _ _ _ _ hj]
          exact h.located j }

end Step

end Locked

end Server

end AcademiaCr.Backend
