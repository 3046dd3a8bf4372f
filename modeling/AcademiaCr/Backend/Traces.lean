import Mathlib.Data.Fintype.Basic
import AcademiaCr.Backend.Transactions

/-!
# Traces of the server

What a step of a run does to the connection, and which call it makes. Conditions on runs
are stated with these.

## Main definitions

- `Server.nextCall`: the SQLite call a thread is about to make
- `step_conn`: a step changes the connection by that call only
- `Happening`: the steps of a run, with the predicates `begins`, `beginFails`,
  `rollsBack`, `writes` on them
-/

namespace AcademiaCr.Backend

open Resumption Transition

/-- A call whose response type is not fixed. -/
abbrev AnyCall := Σ β : Type, SqlCall β

namespace Phase

/-- The call that a thread in this phase makes next. -/
def nextCall : Phase → Option AnyCall
  | body _ _ (.call e _) => some ⟨_, e⟩
  | _ => none

def isIdle : Phase → Bool
  | idle => true
  | _ => false

/-- The request a thread executes. -/
def request : Phase → Option Request
  | idle => none
  | find r _ | emplace r _ | lock r _ | body r _ _ | unlock r _ _ => some r

theorem exists_of_nextCall {phase : Phase} {β : Type} {e : SqlCall β}
    (h : phase.nextCall = some ⟨β, e⟩) :
    ∃ r held next, phase = .body r held (.call e next) := by
  cases phase with
  | body r held rest =>
    cases rest with
    | ret reply => cases h
    | call e' next =>
      cases h
      exact ⟨r, held, next, rfl⟩
  | idle | find | emplace | lock | unlock => cases h

end Phase

namespace Server

variable {ι : Type}

def nextCall (s : Server ι) (i : ι) : Option AnyCall := (s.threads i).phase.nextCall

variable [DecidableEq ι]

/-- Only the next call of the thread that moves acts on the connection. -/
theorem step_conn {s s' : Server ι} {i : ι} {now : Int} (h : s.step (i, now) = some s') :
    s'.conn = match s.nextCall i with
      | some ⟨_, e⟩ => (s.conn.exec now e).2
      | none => s.conn := by
  unfold nextCall
  cases step_moves h with
  | start hp ht => simp [hp, Phase.nextCall]
  | found hp hmutex => rcases hp with hp | hp <;> simp [hp, Phase.nextCall]
  | missing hp hmutex => simp [hp, Phase.nextCall]
  | create hp hmutex => simp [hp, Phase.nextCall]
  | acquire hp ho => simp [hp, Phase.nextCall]
  | call hp => simp [hp, Phase.nextCall]
  | done hp => simp [hp, Phase.nextCall]
  | leave hp => simp [hp, Phase.nextCall]
  | release hp => simp [hp, Phase.nextCall]

/-- All calls are answered and no thread has another one. -/
def AllDone (s : Server ι) : Prop :=
  ∀ i, (s.threads i).phase.isIdle = true ∧ (s.threads i).todo.isEmpty = true

instance (s : Server ι) [Fintype ι] : Decidable s.AllDone :=
  inferInstanceAs (Decidable (∀ i, (s.threads i).phase.isIdle = true ∧ _))

end Server

/-- A step of a run of the server. -/
abbrev Happening (ι : Type) := Event (Server ι) (ι × Int)

namespace Happening

variable {ι : Type} (e : Happening ι)

/-- The thread that moves. -/
def thread : ι := e.label.1

/-- The call that the step makes. -/
def call : Option AnyCall := e.before.nextCall e.thread

/-- A `BEGIN IMMEDIATE` that opens a transaction. -/
def begins : Bool :=
  match e.call with
  | some ⟨_, .beginImmediate⟩ => e.before.conn.saved.isNone
  | _ => false

/-- A `BEGIN IMMEDIATE` that finds an open transaction. -/
def beginFails : Bool :=
  match e.call with
  | some ⟨_, .beginImmediate⟩ => e.before.conn.saved.isSome
  | _ => false

/-- A `ROLLBACK` that restores the tables. -/
def rollsBack : Bool :=
  match e.call with
  | some ⟨_, .rollback⟩ => e.before.conn.saved.isSome
  | _ => false

/-- An `INSERT`, `UPDATE` or `DELETE`. -/
def writes : Bool :=
  match e.call with
  | some ⟨_, .write _⟩ => true
  | _ => false

/-- A write of a request that has no transaction of its own. -/
def writesPlain : Bool :=
  e.writes && ((e.before.threads e.thread).phase.request.bind Request.course).isNone

variable {e} [DecidableEq ι]

/-- What a step does to the tables and to the saved ones: a `BEGIN` saves the tables, a write
changes them, a `ROLLBACK` restores them, and anything else at most forgets the saved ones. -/
theorem effect (h : e.before.step e.label = some e.after) :
    (e.begins = true ∧ e.after.conn.db = e.before.conn.db ∧
      e.after.conn.saved = some e.before.conn.db) ∨
    (e.writes = true ∧ e.begins = false ∧ e.after.conn.saved = e.before.conn.saved) ∨
    (e.rollsBack = true ∧ e.begins = false ∧ e.before.conn.saved = some e.after.conn.db ∧
      e.after.conn.saved = none) ∨
    (e.writes = false ∧ e.begins = false ∧ e.after.conn.db = e.before.conn.db ∧
      ∀ d, e.after.conn.saved = some d → e.before.conn.saved = some d) := by
  have hconn := Server.step_conn h
  simp only [begins, writes, rollsBack]
  change e.after.conn = match e.call with
    | some ⟨_, c⟩ => (e.before.conn.exec e.label.2 c).2
    | none => e.before.conn at hconn
  cases hcall : e.call with
  | none => simp_all
  | some c =>
    obtain ⟨β, c⟩ := c
    rw [hcall] at hconn
    cases c with
    | beginImmediate =>
      cases hs : e.before.conn.saved with
      | none => simp_all [Conn.exec]
      | some d => simp_all [Conn.exec]
    | commit =>
      cases hs : e.before.conn.saved with
      | none => simp_all [Conn.exec]
      | some d => simp_all [Conn.exec]
    | rollback =>
      cases hs : e.before.conn.saved with
      | none => simp_all [Conn.exec]
      | some d => simp_all [Conn.exec]
    | query | changes | lastInsertRowid => simp_all [Conn.exec]
    | write w =>
      simp only [Conn.exec] at hconn
      simp [hconn, Conn.write_saved]

end Happening

end AcademiaCr.Backend
