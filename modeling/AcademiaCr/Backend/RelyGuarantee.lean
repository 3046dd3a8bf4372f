import AcademiaCr.Backend.Interference
import AcademiaCr.Backend.Traces

/-!
# Rely/guarantee reasoning on the server

Each request has a specification. If every thread is safe where it is, and tolerates the
step of another thread, it is still safe after the step. The conditions on runs enter where
it is shown that a step is tolerated.

## Main definitions

- `Spec`: the specification of a request
- `Server.AllSafe`: every thread is safe where it is
- `Server.Only`: every request of the server is of a certain kind
-/

namespace AcademiaCr.Backend

open Resumption

/-- What a request relies on before a call and, having returned, until it is answered; what
its calls guarantee; and what holds when it has returned. -/
structure Spec where
  rely : CallRel
  done : Conn → Conn → Prop
  guar : CallRel
  post : Reply → Conn → Prop

/-- Interference composes: doing nothing is relied on, and doing two things is if both are. -/
structure Spec.Lawful (S : Spec) : Prop where
  refl : ∀ {β : Type} (e : SqlCall β) c, S.rely e c c
  idle : ∀ c, S.done c c
  trans : ∀ {β : Type} (e : SqlCall β) c₁ c₂ c₃, S.rely e c₁ c₂ → S.rely e c₂ c₃ → S.rely e c₁ c₃
  stable : ∀ reply c₁ c₂, S.done c₁ c₂ → S.post reply c₁ → S.post reply c₂

def Spec.Safe (S : Spec) (p : Sql Reply) (conn : Conn) : Prop :=
  SafeSql S.rely S.guar S.post p conn

namespace Phase

variable (spec : Request → Spec)

/-- The thread is safe where it is. -/
def SafeAt (conn : Conn) : Phase → Prop
  | body r _ rest => (spec r).Safe rest conn
  | unlock r _ reply => (spec r).post reply conn
  | _ => True

/-- The thread tolerates a change of the connection where it is. -/
def Tolerates (before after : Conn) : Phase → Prop
  | body r _ rest => rest.Tolerates (spec r).rely (fun _ => (spec r).done) before after
  | unlock r _ _ => (spec r).done before after
  | _ => True

variable {spec}

theorem SafeAt.interfere {before after : Conn} {phase : Phase} (hl : ∀ r, (spec r).Lawful)
    (h : phase.SafeAt spec before) (ht : phase.Tolerates spec before after) :
    phase.SafeAt spec after := by
  cases phase with
  | idle | find | emplace | lock => trivial
  | body r held rest =>
    exact Prog.Safe.interfere (hl r).trans (fun reply c₁ c₂ => (hl r).stable reply c₁ c₂) h ht
  | unlock r m reply => exact (hl r).stable reply _ _ ht h

theorem Tolerates.refl (hl : ∀ r, (spec r).Lawful) (conn : Conn) (phase : Phase) :
    phase.Tolerates spec conn conn := by
  cases phase with
  | idle | find | emplace | lock => trivial
  | body r held rest =>
    cases rest with
    | ret reply => exact (hl r).idle conn
    | call e next => exact (hl r).refl e conn
  | unlock r m reply => exact (hl r).idle conn

/-- What a safe thread guarantees of its next call. -/
theorem SafeAt.guar {conn : Conn} {r : Request} {held : Option Nat} {β : Type} {e : SqlCall β}
    {next : β → Sql Reply} (hl : (spec r).Lawful)
    (h : (body r held (.call e next)).SafeAt spec conn) (now : Int) :
    (spec r).guar e conn (conn.exec now e).2 ∧
      (spec r).Safe (next (conn.exec now e).1) (conn.exec now e).2 :=
  h conn (hl.refl e conn) now

end Phase

namespace Server

variable {ι : Type}

def AllSafe (spec : Request → Spec) (s : Server ι) : Prop :=
  ∀ j, (s.threads j).phase.SafeAt spec s.conn

/-- All requests that threads execute or will execute satisfy a predicate. -/
structure Only (P : Request → Prop) (s : Server ι) : Prop where
  todo : ∀ i, ∀ r ∈ (s.threads i).todo, P r
  phase : ∀ i r, (s.threads i).phase.request = some r → P r

theorem Only.start {P : Request → Prop} {conn : Conn} {todo : ι → List Request}
    (h : ∀ i, ∀ r ∈ todo i, P r) : (Server.start conn todo).Only P :=
  ⟨h, fun i r hr => by cases hr⟩

variable [DecidableEq ι] {s s' : Server ι} {i : ι} {now : Int}

theorem request_enter (r : Request) : r.enter.request = some r := by
  unfold Request.enter
  cases r.course <;> rfl

theorem Only.moves {P : Request → Prop} (h : s.Only P) (hm : Moves s i now s') : s'.Only P := by
  have htodo := h.todo i
  have hphase := h.phase i
  -- it suffices to look at the thread that moved
  suffices hi : (∀ r ∈ (s'.threads i).todo, P r) ∧
      ∀ r, (s'.threads i).phase.request = some r → P r by
    constructor <;>
    · intro j
      by_cases hj : j = i
      · subst hj
        first | exact hi.1 | exact hi.2
      · rw [hm.threads_ne hj]
        first | exact h.todo j | exact h.phase j
  cases hm with
  | start hp ht =>
    rw [ht] at htodo
    rw [setThread_self]
    refine ⟨fun r hr => htodo r (List.mem_cons_of_mem _ hr), fun r hr => ?_⟩
    rw [request_enter] at hr
    cases hr
    exact htodo _ List.mem_cons_self
  | found hp hmutex =>
    rw [setPhase_self]
    rcases hp with hp | hp <;> rw [hp] at hphase <;> exact ⟨htodo, hphase⟩
  | missing hp | create hp | acquire hp | call hp | leave hp =>
    rw [setPhase_self]
    rw [hp] at hphase
    exact ⟨htodo, hphase⟩
  | done hp | release hp =>
    rw [finish_self]
    exact ⟨htodo, fun r hr => by cases hr⟩

/-- A safe thread that moves is safe, provided that requests start out safe. -/
theorem safeAt_mover {spec : Request → Spec} (hl : ∀ r, (spec r).Lawful)
    (h : (s.threads i).phase.SafeAt spec s.conn)
    (henter : ∀ r, (r ∈ (s.threads i).todo ∨ (s.threads i).phase.request = some r) →
      (spec r).Safe r.body s.conn)
    (hm : Moves s i now s') : (s'.threads i).phase.SafeAt spec s'.conn := by
  cases hm with
  | @start r rest hp ht =>
    rw [setThread_self]
    have hr := henter r (Or.inl (by rw [ht]; exact List.mem_cons_self))
    unfold Request.enter
    cases r.course with
    | some c => trivial
    | none => exact hr
  | found | missing | create =>
    rw [setPhase_self]
    trivial
  | @acquire r m hp ho =>
    rw [setPhase_self]
    exact henter r (Or.inr (by rw [hp]; rfl))
  | @call r held β e next hp =>
    rw [setPhase_self]
    rw [hp] at h
    exact (h.guar (hl r) now).2
  | leave hp =>
    rw [setPhase_self]
    rw [hp] at h
    exact h
  | done | release =>
    rw [finish_self]
    trivial

/-- The step of a thread that all others tolerate keeps every thread safe. -/
theorem AllSafe.moves {spec : Request → Spec} {P : Request → Prop} (h : s.AllSafe spec)
    (hl : ∀ r, (spec r).Lawful) (honly : s.Only P)
    (henter : ∀ r, P r → (spec r).Safe r.body s.conn)
    (hm : Moves s i now s')
    (htol : ∀ j, j ≠ i → (s.threads j).phase.Tolerates spec s.conn s'.conn) :
    s'.AllSafe spec := by
  intro j
  by_cases hj : j = i
  · rw [hj]
    refine safeAt_mover hl (h i) (fun r hr => henter r ?_) hm
    exact hr.elim (honly.todo i r) (honly.phase i r)
  · rw [hm.threads_ne hj]
    exact (h j).interfere hl (htol j hj)

end Server

end AcademiaCr.Backend
