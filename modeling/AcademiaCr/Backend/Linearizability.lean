import AcademiaCr.Backend.CapacityRace
import AcademiaCr.Backend.Serialization

/-!
# Registrations and drops on one course

The mutex of a course puts the calls for it one after another: only its holder uses the
connection. In every run they have the replies and effects of a serial execution in the order
in which they acquired the mutex, and the course stays within its capacity.

## Main definitions

- `RegistersOn`: a registration or a drop on the course
- `acquisitionOrder`: the calls of a run in the order in which they acquired their mutex
- `Linearized`: the invariant, for a free and for a held mutex
- `Linearizable`: what it says of replies and tables
-/

namespace AcademiaCr.Backend

open Resumption Transition

/-- The request is a registration or a drop on the course. -/
def RegistersOn (c : Int) : Request → Prop
  | .registerStudent _ c' | .dropStudent _ c' => c' = c
  | .updateCourse _ _ | .http _ => False

theorem RegistersOn.course {c : Int} {r : Request} (h : RegistersOn c r) : r.course = some c := by
  cases r with
  | registerStudent | dropStudent => exact congrArg some h
  | updateCourse | http => exact h.elim

theorem RegistersOn.confined {c : Int} {r : Request} (h : RegistersOn c r) : r.Confined := by
  rw [Request.Confined, h.course]
  rfl

theorem RegistersOn.onCourse {c : Int} {r : Request} (h : RegistersOn c r) : OnCourse c r := by
  cases r with
  | registerStudent | dropStudent => exact h
  | updateCourse | http => exact h.elim

section Order

variable {ι : Type}

/-- The call that acquires its mutex with the step. -/
def Happening.acquired (e : Happening ι) : Option (ι × Request) :=
  match (e.before.threads e.thread).phase with
  | .lock r _ => some (e.thread, r)
  | _ => none

/-- The calls in the order in which they acquired their mutex. -/
def acquisitionOrder (history : List (Happening ι)) : List (ι × Request) :=
  history.reverse.filterMap Happening.acquired

theorem acquisitionOrder_cons (e : Happening ι) (history : List (Happening ι)) :
    acquisitionOrder (e :: history) = acquisitionOrder history ++ e.acquired.toList := by
  rw [acquisitionOrder, List.reverse_cons, List.filterMap_append]
  cases h : e.acquired <;> simp [acquisitionOrder, h]

end Order

/-- The thread is going to answer, or answers, what its request does alone on the tables. -/
def Phase.Alone (db : Db) (conn : Conn) : Phase → Prop
  | body r _ rest => SafeAlone (fun reply conn => (reply, conn.db) = r.alone db ∧
      conn.saved = none) rest conn
  | unlock r _ reply => (reply, conn.db) = r.alone db ∧ conn.saved = none
  | _ => True

/-- While nobody holds the mutex, tables and replies are those of the serial execution. Its
holder is going to add what its request does alone. -/
inductive Linearized {ι : Type} [DecidableEq ι] (db : Db) :
    List (ι × Request) → Server ι → Prop
  | free {order : List (ι × Request)} {s : Server ι}
      (outside : ∀ j, (s.threads j).phase.critical = none) (saved : s.conn.saved = none)
      (tables : s.conn.db = (serial order db).2)
      (finished : ∀ j, (s.threads j).finished.reverse = repliesTo j (serial order db).1) :
      Linearized db order s
  | held {order : List (ι × Request)} {s : Server ι} {i : ι} {r : Request}
      (inside : (s.threads i).phase.critical = some r)
      (outside : ∀ j, j ≠ i → (s.threads j).phase.critical = none)
      (alone : (s.threads i).phase.Alone (serial order db).2 s.conn)
      (finished : ∀ j, (s.threads j).finished.reverse = repliesTo j (serial order db).1) :
      Linearized db (order ++ [(i, r)]) s

section Steps

variable {ι : Type} [DecidableEq ι] {s s' : Server ι} {i : ι} {now : Int} {db : Db} {c : Int}
  {order : List (ι × Request)}

/-- What the move of a thread outside of its critical section can do. -/
theorem Server.Moves.outside (hm : Server.Moves s i now s')
    (honly : s.Only Request.Confined) (hout : (s.threads i).phase.critical = none) :
    s'.conn = s.conn ∧ (∀ j, (s'.threads j).finished = (s.threads j).finished) ∧
      (((s'.threads i).phase.critical = none ∧
          Happening.acquired (⟨s, (i, now), s'⟩ : Happening ι) = none) ∨
        ∃ r m, (s'.threads i).phase = .body r (some m) r.body ∧ r.Confined ∧
          Happening.acquired (⟨s, (i, now), s'⟩ : Happening ι) = some (i, r)) := by
  have hfinished : (s'.threads i).finished = (s.threads i).finished →
      ∀ j, (s'.threads j).finished = (s.threads j).finished := fun hi j => by
    by_cases hj : j = i
    · rw [hj, hi]
    · rw [hm.threads_ne hj]
  simp only [Happening.acquired, Happening.thread]
  cases hm with
  | @start r rest hp ht =>
    obtain ⟨c, hc⟩ := r.enter_eq (honly.todo i r (by rw [ht]; exact List.mem_cons_self))
    refine ⟨rfl, hfinished (by rw [Server.setThread_self]), Or.inl ⟨?_, by rw [hp]⟩⟩
    rw [Server.setThread_self, hc]
    rfl
  | found hp hmutex =>
    refine ⟨rfl, hfinished (by rw [Server.setPhase_self]), Or.inl ⟨?_, ?_⟩⟩
    · rw [Server.setPhase_self]
      rfl
    · rcases hp with hp | hp <;> rw [hp]
  | missing hp | create hp =>
    refine ⟨rfl, hfinished (by rw [Server.setPhase_self]), Or.inl ⟨?_, by rw [hp]⟩⟩
    rw [Server.setPhase_self]
    rfl
  | @acquire r m hp ho =>
    refine ⟨rfl, hfinished (by rw [Server.setPhase_self]; rfl), Or.inr ⟨r, m, ?_, ?_, by rw [hp]⟩⟩
    · rw [Server.setPhase_self]
    · exact honly.phase i r (by rw [hp]; rfl)
  | call hp | done hp | leave hp | release hp =>
    rw [hp] at hout
    cases hout

/-- The holder of the mutex finishes its call. -/
theorem Linearized.release {r : Request} {reply : Reply} {t : Thread}
    (hphase : t.phase = .idle) (hfinished : t.finished = (r, reply) :: (s.threads i).finished)
    (hreply : (reply, s.conn.db) = r.alone (serial order db).2) (hsaved : s.conn.saved = none)
    (outside : ∀ j, j ≠ i → (s.threads j).phase.critical = none)
    (finished : ∀ j, (s.threads j).finished.reverse = repliesTo j (serial order db).1) :
    Linearized db (order ++ [(i, r)]) (s.setThread i t) := by
  refine .free (fun j => ?_) hsaved ?_ fun j => ?_
  · by_cases hj : j = i
    · rw [hj, Server.setThread_self, hphase]
      rfl
    · rw [Server.setThread_ne _ _ _ hj]
      exact outside j hj
  · rw [serial_snoc, ← hreply]
    rfl
  · rw [serial_snoc, repliesTo_snoc, ← hreply, ← finished j]
    by_cases hj : j = i
    · subst hj
      rw [Server.setThread_self, hfinished, if_pos rfl, List.reverse_cons]
    · rw [Server.setThread_ne _ _ _ hj, if_neg (Ne.symm hj), List.append_nil]

/-- The steps of the holder of the mutex. -/
theorem Linearized.step_holder {r : Request} (hm : Server.Moves s i now s')
    (inside : (s.threads i).phase.critical = some r)
    (outside : ∀ j, j ≠ i → (s.threads j).phase.critical = none)
    (alone : (s.threads i).phase.Alone (serial order db).2 s.conn)
    (finished : ∀ j, (s.threads j).finished.reverse = repliesTo j (serial order db).1) :
    Linearized db (order ++ [(i, r)]) s' := by
  have hstays : ∀ (conn : Conn) (phase : Phase), phase.critical = some r →
      phase.Alone (serial order db).2 conn →
        Linearized db (order ++ [(i, r)]) (({ s with conn }).setPhase i phase) := by
    intro conn phase hcritical halone
    refine .held (by rw [Server.setPhase_self]; exact hcritical) (fun j hj => ?_)
      (by rw [Server.setPhase_self]; exact halone) fun j => ?_
    · rw [Server.setPhase_ne _ _ _ hj]
      exact outside j hj
    · by_cases hj : j = i
      · rw [hj, Server.setPhase_self]
        exact finished i
      · rw [Server.setPhase_ne _ _ _ hj]
        exact finished j
  cases hm with
  | start hp | missing hp | create hp | acquire hp => rw [hp] at inside; cases inside
  | found hp => rcases hp with hp | hp <;> rw [hp] at inside <;> cases inside
  | call hp =>
    rw [hp] at inside alone
    cases inside
    exact hstays _ _ rfl (alone s.conn rfl now).2
  | leave hp =>
    rw [hp] at inside alone
    cases inside
    exact hstays s.conn _ rfl alone
  | done hp =>
    rw [hp] at inside alone
    cases inside
    exact .release rfl rfl alone.1 alone.2 outside finished
  | release hp =>
    rw [hp] at inside alone
    cases inside
    exact release (s := s.setOwner _ none) rfl rfl alone.1 alone.2 outside finished

/-- A step keeps the invariant if it leaves at most one thread in its critical section. -/
theorem Linearized.step (h : Linearized db order s) (honly : s.Only Request.Confined)
    (hs : s.step (i, now) = some s')
    (hexclusive : ∀ j k r q, (s'.threads j).phase.critical = some r →
      (s'.threads k).phase.critical = some q → j = k) :
    Linearized db (order ++ (Happening.acquired ⟨s, (i, now), s'⟩).toList) s' := by
  have hm := Server.step_moves hs
  cases h with
  | free outside saved tables finished =>
    obtain ⟨hconn, hfinished, ⟨hi, hacquired⟩ | ⟨r, m, hi, hr, hacquired⟩⟩ :=
      hm.outside honly (outside i)
    · rw [hacquired, Option.toList_none, List.append_nil]
      refine .free (fun j => ?_) (by rw [hconn, saved]) (by rw [hconn, tables]) fun j => by
        rw [hfinished, finished]
      by_cases hj : j = i
      · rw [hj, hi]
      · rw [hm.threads_ne hj, outside j]
    · rw [hacquired, Option.toList_some]
      refine .held (by rw [hi]; rfl) (fun j hj => ?_) ?_ fun j => by rw [hfinished, finished]
      · rw [hm.threads_ne hj, outside j]
      · rw [hi, hconn, ← tables]
        exact safeAlone_body hr saved
  | @held order _ i₀ r₀ inside outside alone finished =>
    by_cases hi₀ : i = i₀
    · subst hi₀
      have hacquired : Happening.acquired (⟨s, (i, now), s'⟩ : Happening ι) = none := by
        simp only [Happening.acquired, Happening.thread]
        cases hp : (s.threads i).phase with
        | lock r m => rw [hp] at inside; cases inside
        | idle | find | emplace | body | unlock => rfl
      rw [hacquired, Option.toList_none, List.append_nil]
      exact .step_holder hm inside outside alone finished
    · have hstays := hm.threads_ne (Ne.symm hi₀)
      obtain ⟨hconn, hfinished, ⟨hi, hacquired⟩ | ⟨r, m, hi, -, -⟩⟩ :=
        hm.outside honly (outside i hi₀)
      · rw [hacquired, Option.toList_none, List.append_nil]
        refine .held (by rw [hstays, inside]) (fun j hj => ?_) (by rw [hstays, hconn]; exact alone)
          fun j => by rw [hfinished, finished]
        by_cases hji : j = i
        · rw [hji, hi]
        · rw [hm.threads_ne hji, outside j hj]
      · -- the mutex is held, so the thread cannot have acquired it
        exact absurd (hexclusive i i₀ r r₀ (by rw [hi]; rfl) (by rw [hstays, inside])) hi₀

/-! ## Runs -/

/-- Without updates of the course, no step races with a registration or drop: only the holder
of the mutex uses the connection. -/
theorem RaceInv.step_registers (h : RaceInv c s) (honly : s.Only (RegistersOn c))
    (hs : s.step (i, now) = some s') : RaceInv c s' := by
  have hm := Server.step_moves hs
  have hconn := Server.step_conn hs
  suffices hcall : Guarded c s'.conn ∧
      ∀ j, j ≠ i → (s.threads j).phase.Tolerates (raceSpec c) s.conn s'.conn from
    ⟨h.locked.moves hm, h.only.moves hm, h.safe.moves (raceSpec_lawful c) h.only
      (fun r hr => safe_onCourse h.guarded hr) hm hcall.2, hcall.1⟩
  cases hnext : s.nextCall i with
  | none =>
    rw [hnext] at hconn
    rw [hconn]
    exact ⟨h.guarded, fun j _ => .refl (raceSpec_lawful c) _ _⟩
  | some e =>
    obtain ⟨β, e⟩ := e
    rw [hnext] at hconn
    obtain ⟨r, held, next, hp⟩ := Phase.exists_of_nextCall hnext
    have hr := honly.phase i r (by rw [hp]; rfl)
    have hsafe := h.safe i
    rw [hp] at hsafe
    have hguar := (hsafe.guar (raceSpec_lawful c r) now).1
    rw [hconn]
    constructor
    · cases r with
      | registerStudent | dropStudent => exact hguar.1
      | updateCourse | http => exact hr.elim
    · intro j hj
      have hout : ∀ q, (s.threads j).phase.critical = some q → q.course ≠ some c :=
        fun q hq hqc => hj (h.locked.exclusive (by rw [hp]; rfl) hr.course hq hqc).symm
      have hq := honly.phase j
      cases hphase : (s.threads j).phase with
      | idle | find | emplace | lock => trivial
      | body q held' rest | unlock q m reply =>
        rw [hphase] at hout hq
        exact absurd (hq q rfl).course (hout q rfl)

/-- Finished calls have the replies of the serial execution in the order of acquisition, and
when nobody is in a call, so have all the calls and the tables. Each thread makes its calls in
its own order. -/
structure Linearizable (db : Db) (todo : ι → List Request) (order : List (ι × Request))
    (s : Server ι) : Prop where
  replies : ∀ j, (s.threads j).finished.reverse <+: repliesTo j (serial order db).1
  free : (∀ j, (s.threads j).phase.critical = none) → s.conn.db = (serial order db).2 ∧
    ∀ j, (s.threads j).finished.reverse = repliesTo j (serial order db).1
  program : ∀ j, callsOf j order <+: todo j

theorem Linearized.linearizable (h : Linearized db order s) {todo : ι → List Request}
    (hcalls : ∀ j, (s.threads j).calls = todo j) : Linearizable db todo order s := by
  cases h with
  | free outside saved tables finished =>
    refine ⟨fun j => by rw [finished j], fun _ => ⟨tables, finished⟩, fun j => ?_⟩
    rw [← map_repliesTo j order db, ← finished j, ← hcalls j, Thread.calls, List.append_assoc]
    exact List.prefix_append _ _
  | @held order _ i r inside outside alone finished =>
    refine ⟨fun j => ?_, fun hfree => ?_, fun j => ?_⟩
    · rw [serial_snoc, repliesTo_snoc, finished j]
      exact List.prefix_append _ _
    · rw [hfree i] at inside
      cases inside
    · rw [callsOf_snoc, ← map_repliesTo j order db, ← finished j, ← hcalls j, Thread.calls,
        List.append_assoc]
      by_cases hj : i = j
      · subst hj
        have hrequest : (s.threads i).phase.request = some r := by
          cases hp : (s.threads i).phase <;> rw [hp] at inside <;> cases inside <;> rfl
        simp [hrequest]
      · simp [hj]

/-- The invariants of runs of registrations and drops on one course. -/
theorem linearized_of_run {conn : Conn} {todo : ι → List Request} (hs : conn.saved = none)
    (hv : conn.db.Valid) (hc : conn.db.Covered c) (htodo : ∀ i, ∀ r ∈ todo i, RegistersOn c r)
    {history : List (Happening ι)} (hr : (Server.start conn todo).Runs history s) :
    RaceInv c s ∧ s.Only (RegistersOn c) ∧ Linearized conn.db (acquisitionOrder history) s := by
  induction hr with
  | start =>
    exact ⟨.start hs hv hc fun i r hr => (htodo i r hr).onCourse, .start htodo,
      .free (fun j => rfl) hs rfl fun j => rfl⟩
  | @snoc history s s' l hr hs ih =>
    obtain ⟨i, now⟩ := l
    obtain ⟨hrace, honly, hlinear⟩ := ih
    have honly' := honly.moves (Server.step_moves hs)
    have hrace' := hrace.step_registers honly hs
    have hcourse : ∀ j r, (s'.threads j).phase.critical = some r → r.course = some c := by
      intro j r hj
      refine (honly'.phase j r ?_).course
      cases hp : (s'.threads j).phase <;> rw [hp] at hj <;> cases hj <;> rfl
    rw [acquisitionOrder_cons]
    exact ⟨hrace', honly', hlinear.step
      ⟨fun i r hr => (honly.todo i r hr).confined, fun i r hr => (honly.phase i r hr).confined⟩ hs
      fun j k r q hj hk => hrace'.locked.exclusive hj (hcourse j r hj) hk (hcourse k q hk)⟩

end Steps

end AcademiaCr.Backend
