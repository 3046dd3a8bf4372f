import AcademiaCr.Backend.Interference
import AcademiaCr.Backend.Server

/-!
# Registrations and drops do not look at the clock

Only sessions expire. What a registration or a drop does therefore does not depend on the
times at which its calls are made, and `Request.alone` is what it does on its own.

## Main definitions

- `SqlCall.Timeless`: a call that has the same effect at any time
- `Request.alone`: the reply and the tables after a request that has the connection to itself
- `SafeAlone`: the same of a program, call by call at any times
-/

namespace AcademiaCr.Backend

open Resumption

/-- The effect of the call does not depend on the clock. -/
def SqlCall.Timeless {β : Type} (e : SqlCall β) : Prop :=
  ∀ now now' conn, Conn.exec now e conn = Conn.exec now' e conn

/-- No call of the program depends on the clock. -/
def TimelessSql {α : Type} (p : Sql α) : Prop := p.Calls fun _ e => e.Timeless

def TimelessExcept {α : Type} (p : SqlExcept α) : Prop := TimelessSql p.run

section Rules

variable {α β : Type}

theorem timeless_sql {e : SqlCall β} (h : e.Timeless) : TimelessSql (sql e) := ⟨h, fun _ => trivial⟩

theorem timeless_select {q : Query β} (h : ∀ now now' db, q.eval now db = q.eval now' db) :
    TimelessSql (select q) :=
  timeless_sql fun now now' conn => by simp only [Conn.exec, h now now']

theorem timeless_stepWrite {w : Write} (h : ∀ now now' db, w.apply now db = w.apply now' db) :
    TimelessSql (stepWrite w) :=
  timeless_sql fun now now' conn => by simp only [Conn.exec, Conn.write, h now now']

theorem timeless_map {p : Sql α} (hp : TimelessSql p) (f : α → β) : TimelessSql (f <$> p) :=
  Prog.calls_bind hp fun _ => trivial

theorem timeless_lift {p : Sql α} (hp : TimelessSql p) : TimelessExcept (liftM p) :=
  Prog.calls_bind hp fun _ => trivial

theorem timeless_bind {p : SqlExcept α} {f : α → SqlExcept β} (hp : TimelessExcept p)
    (hf : ∀ a, TimelessExcept (f a)) : TimelessExcept (p >>= f) := by
  rw [TimelessExcept, ExceptT.run_bind]
  refine Prog.calls_bind hp ?_
  rintro (e | a)
  · trivial
  · exact hf a

theorem timeless_tryCatch {p : SqlExcept α} {h : Exn → SqlExcept α} (hp : TimelessExcept p)
    (hh : ∀ e, TimelessExcept (h e)) : TimelessExcept (tryCatch p h) := by
  rw [TimelessExcept, ExceptT.run_tryCatch]
  refine Prog.calls_bind hp ?_
  rintro (e | a)
  · exact hh e
  · trivial

theorem timeless_execute {e : SqlCall (Option String)} (h : e.Timeless) (statement : String) :
    TimelessExcept (Database.execute (sql e) statement) := by
  refine timeless_bind (timeless_lift (timeless_sql h)) fun err => ?_
  cases err <;> trivial

theorem timeless_transaction {func : SqlExcept α} (h : TimelessExcept func) :
    TimelessExcept (Database.transaction func) := by
  have hbegin : TimelessExcept Database.beginTransaction :=
    timeless_execute (e := .beginImmediate) (fun _ _ _ => rfl) _
  have hcommit : TimelessExcept Database.commit :=
    timeless_execute (e := .commit) (fun _ _ _ => rfl) _
  have hrollback : TimelessExcept Database.rollback :=
    timeless_tryCatch (timeless_execute (e := .rollback) (fun _ _ _ => rfl) _) fun _ => trivial
  refine timeless_bind hbegin fun _ => timeless_tryCatch ?_ fun e => ?_
  · exact timeless_bind h fun _ => timeless_bind hcommit fun _ => trivial
  · exact timeless_bind hrollback fun _ => trivial

theorem timeless_courseById (id : Int) : TimelessSql (CourseRepository.findById id) :=
  timeless_map (timeless_select fun _ _ _ => rfl) _

theorem timeless_exists' (s c : Int) : TimelessSql (RegistrationRepository.exists' s c) :=
  timeless_map (timeless_select fun _ _ _ => rfl) fun count => decide (count > 0)

theorem timeless_create (s c : Int) : TimelessExcept (RegistrationRepository.create s c) := by
  refine timeless_bind (timeless_lift (timeless_stepWrite fun _ _ _ => rfl)) fun _ => ?_
  refine timeless_bind (timeless_lift (timeless_sql fun _ _ _ => rfl)) fun _ => ?_
  split
  · exact timeless_bind (timeless_lift (timeless_select fun _ _ _ => rfl)) fun _ => trivial
  · refine timeless_bind (timeless_lift (timeless_stepWrite fun _ _ _ => rfl)) fun _ => ?_
    split
    · exact timeless_lift (timeless_sql fun _ _ _ => rfl)
    · trivial

theorem timeless_registerTransaction (s c : Int) :
    TimelessExcept (RegistrationService.registerTransaction s c) := by
  refine timeless_bind (timeless_lift (timeless_courseById c)) fun course => ?_
  split
  · trivial
  · refine timeless_bind (timeless_lift (timeless_exists' s c)) fun _ => ?_
    split
    · trivial
    · refine timeless_bind (timeless_lift (timeless_select fun _ _ _ => rfl)) fun _ => ?_
      dsimp only
      split
      · trivial
      · exact timeless_bind (timeless_create s c) fun _ => trivial

theorem timeless_dropTransaction (s c : Int) :
    TimelessExcept (RegistrationService.dropTransaction s c) := by
  refine timeless_bind (timeless_lift (timeless_exists' s c)) fun _ => ?_
  split
  · refine timeless_bind (timeless_lift (timeless_stepWrite fun _ _ _ => rfl)) fun _ => ?_
    refine timeless_bind (timeless_lift (timeless_courseById c)) fun _ => ?_
    split <;> trivial
  · trivial

end Rules

/-! ## Requests that have the connection to themselves -/

namespace Request

/-- The request is a registration or a drop. -/
def Confined (r : Request) : Prop := r.course.isSome = true

/-- Execute the request on the given tables with nothing else on the connection. -/
def alone (r : Request) (db : Db) : Reply × Db :=
  let out := ({ db } : Conn).run 0 r.body
  (out.1, out.2.db)

theorem run_registration {p : Sql RegistrationResult} {now : Int} {conn : Conn}
    {x : RegistrationResult × Db} (h : ((conn.run now p).1, (conn.run now p).2.db) = x) :
    ((conn.run now (Reply.registration <$> p)).1, (conn.run now (Reply.registration <$> p)).2.db) =
      (.registration x.1, x.2) := by
  subst h
  simp only [Prog.map_eq, Conn.run_bind, Conn.run_ret]

@[simp] theorem alone_registerStudent (s c : Int) (db : Db) : (registerStudent s c).alone db =
    (.registration (db.register s c).1, (db.register s c).2) :=
  run_registration (Conn.run_registerStudent 0 s c rfl)

@[simp] theorem alone_dropStudent (s c : Int) (db : Db) : (dropStudent s c).alone db =
    (.registration (db.drop s c).1, (db.drop s c).2) :=
  run_registration (Conn.run_dropStudent 0 s c rfl)

variable {r : Request} {conn : Conn}

/-- What a registration or a drop does depends on the tables only. -/
theorem run_body (hr : r.Confined) (hs : conn.saved = none) (now : Int) :
    ((conn.run now r.body).1, (conn.run now r.body).2.db) = r.alone conn.db := by
  cases r with
  | registerStudent s c =>
    rw [alone_registerStudent]
    exact run_registration (Conn.run_registerStudent now s c hs)
  | dropStudent s c =>
    rw [alone_dropStudent]
    exact run_registration (Conn.run_dropStudent now s c hs)
  | updateCourse | http => cases hr

theorem run_body_saved (hr : r.Confined) (hs : conn.saved = none) (now : Int) :
    (conn.run now r.body).2.saved = none := by
  cases r with
  | registerStudent s c =>
    simp only [body, Prog.map_eq, Conn.run_bind, Conn.run_ret]
    exact Conn.run_registerStudent_saved now s c hs
  | dropStudent s c =>
    simp only [body, Prog.map_eq, Conn.run_bind, Conn.run_ret]
    exact Conn.run_dropStudent_saved now s c hs
  | updateCourse | http => cases hr

theorem timeless_body (hr : r.Confined) : TimelessSql r.body := by
  have hanswer : ∀ {func : SqlExcept RegistrationResult} {f : Except Exn RegistrationResult →
      Sql RegistrationResult}, TimelessExcept func → (∀ a, ∃ b, f a = .ret b) →
        TimelessSql ((Database.transaction func).run.bind f) := by
    intro func f hfunc hf
    refine Prog.calls_bind (timeless_transaction hfunc) fun a => ?_
    obtain ⟨b, hb⟩ := hf a
    rw [hb]
    trivial
  cases r with
  | registerStudent s c =>
    refine timeless_map (hanswer (timeless_registerTransaction s c) ?_) _
    rintro (e | a) <;> exact ⟨_, rfl⟩
  | dropStudent s c =>
    refine timeless_map (hanswer (timeless_dropTransaction s c) ?_) _
    rintro (e | a) <;> exact ⟨_, rfl⟩
  | updateCourse | http => cases hr

end Request

/-- The program returns with `post` if no other thread makes a call, at whatever times its own
calls are made. -/
def SafeAlone {α : Type} (post : α → Conn → Prop) (p : Sql α) (conn : Conn) : Prop :=
  SafeSql (fun _ conn conn' => conn' = conn) (fun _ _ _ => True) post p conn

theorem safeAlone_of_run {α : Type} {post : α → Conn → Prop} {p : Sql α} (hp : TimelessSql p)
    {conn : Conn} (h : post (conn.run 0 p).1 (conn.run 0 p).2) : SafeAlone post p conn := by
  induction p generalizing conn with
  | ret a => exact h
  | call e next ih =>
    rintro _ rfl now
    refine ⟨trivial, ?_⟩
    dsimp only
    rw [hp.1 now 0]
    exact ih _ (hp.2 _) h

/-- Alone, a registration or a drop does at any times what it does at one time. -/
theorem safeAlone_body {r : Request} (hr : r.Confined) {conn : Conn} (hs : conn.saved = none) :
    SafeAlone (fun reply conn' => (reply, conn'.db) = r.alone conn.db ∧ conn'.saved = none)
      r.body conn :=
  safeAlone_of_run (Request.timeless_body hr)
    ⟨Request.run_body hr hs 0, Request.run_body_saved hr hs 0⟩

end AcademiaCr.Backend
