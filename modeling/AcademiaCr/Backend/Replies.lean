import AcademiaCr.Library.Progress
import AcademiaCr.Backend.Locks

/-!
# Every request is replied to

The server never gets stuck on its course mutexes: as long as a thread has something to do,
some thread can do the next step. Every step brings its thread closer to the end of its
requests. So each thread replies to all of its requests, once and in their order, however the
threads are scheduled.

## Main definitions

- `Phase.Next`, `Thread.Next`: how a phase, and a thread, get further
- `Server.Handled`: no request is lost or replied to twice
- `Server.replies_inevitable`: all requests are replied to
-/

namespace AcademiaCr.Backend

open Resumption Transition

/-- The request that a phase belongs to. -/
def Phase.current : Phase → Option Request
  | .idle => none
  | .find r _ | .emplace r _ | .lock r _ | .body r _ _ | .unlock r _ _ => some r

theorem current_enter (r : Request) : r.enter.current = some r := by
  unfold Request.enter
  cases r.course <;> rfl

/-- A thread that has nothing left to do. -/
def Thread.Done (t : Thread) : Prop := t.phase = .idle ∧ t.todo = []

/-! ## Getting further -/

/-- The phases after the ones of a request. -/
inductive Phase.Next : Phase → Phase → Prop
  | found (r : Request) (c : Int) (m : Nat) : Next (.lock r m) (.find r c)
  | missing (r : Request) (c : Int) : Next (.emplace r c) (.find r c)
  | created (r : Request) (c : Int) (m : Nat) : Next (.lock r m) (.emplace r c)
  | locked (r : Request) (m : Nat) : Next (.body r (some m) r.body) (.lock r m)
  | call (r : Request) (held : Option Nat) {p q : Sql Reply} (h : Prog.Rest q p) :
      Next (.body r held q) (.body r held p)
  | done (r : Request) (held : Option Nat) (p : Sql Reply) : Next .idle (.body r held p)
  | leave (r : Request) (held : Option Nat) (p : Sql Reply) (m : Nat) (reply : Reply) :
      Next (.unlock r m reply) (.body r held p)
  | release (r : Request) (m : Nat) (reply : Reply) : Next .idle (.unlock r m reply)

/-- From the last phase to the first. -/
theorem Phase.wellFounded_next : WellFounded Phase.Next := by
  have hidle : Acc Next idle := ⟨_, fun q hq => nomatch hq⟩
  have hunlock : ∀ r m reply, Acc Next (unlock r m reply) := fun r m reply =>
    ⟨_, fun q hq => by cases hq; exact hidle⟩
  have hbody : ∀ r held p, Acc Next (body r held p) := fun r held p => by
    induction p using Prog.wellFounded_rest.induction with
    | _ p ih =>
      refine ⟨_, fun q hq => ?_⟩
      cases hq with
      | call _ _ h => exact ih _ h
      | done => exact hidle
      | leave => exact hunlock _ _ _
  have hlock : ∀ r m, Acc Next (lock r m) := fun r m =>
    ⟨_, fun q hq => by cases hq; exact hbody _ _ _⟩
  have hemplace : ∀ r c, Acc Next (emplace r c) := fun r c =>
    ⟨_, fun q hq => by cases hq; exact hlock _ _⟩
  have hfind : ∀ r c, Acc Next (find r c) := fun r c => by
    refine ⟨_, fun q hq => ?_⟩
    cases hq with
    | found => exact hlock _ _
    | missing => exact hemplace _ _
  refine ⟨fun phase => ?_⟩
  cases phase with
  | idle => exact hidle
  | find r c => exact hfind r c
  | emplace r c => exact hemplace r c
  | lock r m => exact hlock r m
  | body r held rest => exact hbody r held rest
  | unlock r m reply => exact hunlock r m reply

/-- A thread has fewer requests to start, or it gets further in the one it executes. -/
def Thread.Next (t' t : Thread) : Prop :=
  Prod.Lex (· < ·) Phase.Next (t'.todo.length, t'.phase) (t.todo.length, t.phase)

theorem Thread.wellFounded_next : WellFounded Thread.Next :=
  InvImage.wf (fun t : Thread => (t.todo.length, t.phase))
    (WellFounded.prod_lex Nat.lt_wfRel.wf Phase.wellFounded_next)

namespace Server

variable {ι : Type} [DecidableEq ι] {s s' : Server ι} {i : ι} {now : Int}

theorem next_setPhase {phase : Phase} (h : Phase.Next phase (s.threads i).phase) :
    Thread.Next ((s.setPhase i phase).threads i) (s.threads i) := by
  rw [setPhase_self]
  exact .right _ h

theorem next_finish (r : Request) (reply : Reply) (h : Phase.Next .idle (s.threads i).phase) :
    Thread.Next ((s.finish i r reply).threads i) (s.threads i) := by
  rw [finish_self]
  exact .right _ h

/-- A thread that moves gets further. -/
theorem Moves.next (hm : Moves s i now s') : Thread.Next (s'.threads i) (s.threads i) := by
  cases hm with
  | start hp ht =>
    rw [setThread_self]
    refine .left _ _ ?_
    rw [ht]
    exact Nat.lt_succ_self _
  | found hp hm =>
    obtain hp | hp := hp
    · exact next_setPhase (hp ▸ .found _ _ _)
    · exact next_setPhase (hp ▸ .created _ _ _)
  | missing hp hm => exact next_setPhase (hp ▸ .missing _ _)
  | create hp hm => exact next_setPhase (hp ▸ .created _ _ _)
  | acquire hp ho => exact next_setPhase (hp ▸ .locked _ _)
  | call hp => exact next_setPhase (hp ▸ .call _ _ (.call _ _ _))
  | done hp => exact next_finish _ _ (hp ▸ .done _ _ _)
  | leave hp => exact next_setPhase (hp ▸ .leave _ _ _ _ _)
  | release hp => exact next_finish _ _ (hp ▸ .release _ _ _)

theorem Moves.advances (hm : Moves s i now s') : Advances Thread.Next s'.threads s.threads :=
  ⟨i, hm.next, fun _ hj => hm.threads_ne hj⟩

/-! ## Never stuck -/

/-- A thread that has something to do can move, unless the mutex that it waits for is held. -/
theorem exists_step (hbusy : ¬ (s.threads i).Done)
    (hfree : ∀ r m, (s.threads i).phase = .lock r m → s.owner m = none) (now : Int) :
    ∃ s', s.step (i, now) = some s' := by
  cases hp : (s.threads i).phase with
  | idle =>
    cases ht : (s.threads i).todo with
    | nil => exact absurd ⟨hp, ht⟩ hbusy
    | cons r rest => simp only [step, hp, ht, Option.some.injEq, exists_eq']
  | find r c => cases hm : s.mutexOf c <;> simp only [step, hp, hm, Option.some.injEq, exists_eq']
  | emplace r c =>
    cases hm : s.mutexOf c <;> simp only [step, hp, hm, Option.some.injEq, exists_eq']
  | lock r m => simp only [step, hp, hfree r m hp, Option.some.injEq, exists_eq']
  | body r held rest =>
    cases rest with
    | call e next => simp only [step, hp, Option.some.injEq, exists_eq']
    | ret reply => cases held <;> simp only [step, hp, Option.some.injEq, exists_eq']
  | unlock r m reply => simp only [step, hp, Option.some.injEq, exists_eq']

omit [DecidableEq ι] in
theorem Locked.owner_phase (h : s.Locked) {m : Nat} (ho : s.owner m = some i) :
    (s.threads i).phase ≠ .idle ∧ ∀ r n, (s.threads i).phase ≠ .lock r n := by
  have hholds := (h.owners i m).mpr ho
  refine ⟨?_, ?_⟩
  · intro hp
    rw [hp] at hholds
    cases hholds
  · rintro r n hp
    rw [hp] at hholds
    cases hholds

/-- As long as a thread has something to do, one of the threads can move: whoever holds the
mutex that another one waits for does not wait for one. -/
theorem Locked.exists_step (h : s.Locked) (hbusy : ¬ (s.threads i).Done) (now : Int) :
    ∃ j s', s.step (j, now) = some s' := by
  by_cases hfree : ∀ r m, (s.threads i).phase = .lock r m → s.owner m = none
  · exact ⟨i, Server.exists_step hbusy hfree now⟩
  · push Not at hfree
    obtain ⟨r, m, hp, hheld⟩ := hfree
    obtain ⟨j, ho⟩ := Option.ne_none_iff_exists'.mp hheld
    obtain ⟨hidle, hlock⟩ := h.owner_phase ho
    exact ⟨j, Server.exists_step (fun hdone => hidle hdone.1)
      (fun r n hp => absurd hp (hlock r n)) now⟩

/-! ## Requests and replies -/

/-- The requests of each thread are those it has replied to, the one it executes and those
that it still has to execute, in this order. -/
def Handled (todo : ι → List Request) (s : Server ι) : Prop :=
  ∀ i, ((s.threads i).finished.map (·.1)).reverse ++ (s.threads i).phase.current.toList ++
    (s.threads i).todo = todo i

omit [DecidableEq ι] in
theorem handled_start (conn : Conn) (todo : ι → List Request) :
    (start conn todo).Handled todo := fun _ => rfl

theorem Handled.moves {todo : ι → List Request} (h : s.Handled todo) (hm : Moves s i now s') :
    s'.Handled todo := by
  intro j
  by_cases hj : j = i
  · subst hj
    rw [← h j]
    cases hm with
    | start hp ht =>
      rw [setThread_self, hp, ht, current_enter]
      simp only [Phase.current, Option.toList_none, Option.toList_some, List.append_assoc,
        List.nil_append, List.singleton_append]
    | found hp hm =>
      rw [setPhase_self]
      obtain hp | hp := hp <;> rw [hp] <;> rfl
    | missing hp hm | create hp hm | acquire hp hm => rw [setPhase_self, hp]; rfl
    | call hp | leave hp => rw [setPhase_self, hp]; rfl
    | done hp | release hp =>
      rw [finish_self, hp]
      simp only [Phase.current, List.map_cons, List.reverse_cons, Option.toList_none,
        Option.toList_some, List.append_nil, setOwner_threads]
  · rw [hm.threads_ne hj]
    exact h j

/-- The threads have replied to all of their requests. -/
def Replied (todo : ι → List Request) (s : Server ι) : Prop :=
  ∀ i, (s.threads i).Done ∧ (s.threads i).finished.map (·.1) = (todo i).reverse

omit [DecidableEq ι] in
theorem Handled.replied {todo : ι → List Request} (h : s.Handled todo)
    (hdone : ∀ i, (s.threads i).Done) : s.Replied todo := by
  intro i
  refine ⟨hdone i, ?_⟩
  obtain ⟨hp, ht⟩ := hdone i
  rw [← h i, hp, ht]
  simp only [Phase.current, Option.toList_none, List.append_nil, List.reverse_reverse]

/-- One step of some thread at some time. -/
def Next (s s' : Server ι) : Prop := ∃ l, s.step l = some s'

/-- Wherever a run of the server has got to, and however its threads are scheduled from there,
the server gets to reply to all requests, once each and in the order of their thread. -/
theorem replies_inevitable [Finite ι] (conn : Conn) (todo : ι → List Request)
    {history : List (Event (Server ι) (ι × Int))} {s : Server ι}
    (hr : Runs (start conn todo) history s) : Inevitable Next (Replied todo) s := by
  have hstep : ∀ s l s', s.Locked ∧ s.Handled todo → step s l = some s' →
      s'.Locked ∧ s'.Handled todo := by
    rintro s l s' ⟨hlocked, hhandled⟩ hs
    exact ⟨hlocked.moves (step_moves hs), hhandled.moves (step_moves hs)⟩
  have hreached : s.Locked ∧ s.Handled todo :=
    hr.invariant (A := fun _ => True) ⟨.start conn todo, handled_start conn todo⟩
      (fun s l s' h hs _ => hstep s l s' h hs) fun _ _ => trivial
  refine Inevitable.of_wellFounded (I := fun s => s.Locked ∧ s.Handled todo) ?_ ?_ ?_ hreached
  · refine Subrelation.wf ?_ (InvImage.wf threads (wellFounded_advances Thread.wellFounded_next))
    rintro s' s ⟨-, l, hs⟩
    exact (step_moves hs).advances
  · rintro s s' h ⟨l, hs⟩
    exact hstep s l s' h hs
  · rintro s ⟨hlocked, hhandled⟩ hnot
    have hbusy : ∃ i, ¬ (s.threads i).Done := by
      by_contra hdone
      push Not at hdone
      exact hnot (hhandled.replied hdone)
    obtain ⟨i, hbusy⟩ := hbusy
    obtain ⟨j, s', hs⟩ := hlocked.exists_step hbusy 0
    exact ⟨s', (j, 0), hs⟩

/-- Two threads that register a student for the same course. -/
def rivals (_ : Bool) : List Request := [.registerStudent 1 2]

/-- One of the threads waits for the mutex that the other one holds. -/
theorem rivals_replied : ∃ history s, Runs (start {} rivals) history s ∧
    (s.threads true).phase = .lock (.registerStudent 1 2) 0 ∧ s.owner 0 = some false ∧
    Inevitable Next (Replied rivals) s := by
  have hrun : Runs (start {} rivals) [] (start {} rivals) := .start
  have hrun := (hrun.snoc (l := (false, 0)) rfl).snoc (l := (false, 0)) rfl
  have hrun := hrun.snoc (l := (false, 0)) rfl
  have hrun := (hrun.snoc (l := (true, 0)) rfl).snoc (l := (true, 0)) rfl
  have hrun := hrun.snoc (l := (false, 0)) rfl
  exact ⟨_, _, hrun, rfl, rfl, replies_inevitable {} rivals hrun⟩

end Server

end AcademiaCr.Backend
