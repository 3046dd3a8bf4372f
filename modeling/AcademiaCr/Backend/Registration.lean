import AcademiaCr.Backend.Footprint

/-!
# What a registration and a drop do on their own

The abstract meaning of the two registration operations, on the tables alone: no
transaction, no `changes`, no `lastInsertRowid`. `run_registerStudent` and
`run_dropStudent` show that the code computes it when nothing else uses the connection.

## Main definitions

- `Db.register`, `Db.drop`: the abstract operations
- `Conn.runExcept_transaction`: what `Database::transaction` does to an undisturbed function
-/

namespace AcademiaCr.Backend

open Resumption

namespace Db

/-- The tables in which the dropped row of the pair, if any, is active again. -/
def reactivated (db : Db) (s c : Int) : Db :=
  { db with
    registrations := Table.update (RegistrationRow.droppedPair s c)
      (RegistrationRow.setStatus "active") db.registrations }

/-- Give the pair an active row: the dropped one if there is one, else a new one. Yields
its id, or nothing if a constraint forbids it. -/
def activate (db : Db) (s c : Int) : Option (Int × Db) :=
  if 0 < db.registrations.countP (RegistrationRow.droppedPair s c) then
    let db' := db.reactivated s c
    some (((db'.registrations.find? (RegistrationRow.ofPair s c)).map (·.id)).getD 0, db')
  else (db.insertRegistration s c).map fun applied => (applied.rowid.getD 0, applied.db)

/-- The tables in which the active row of the pair, if any, is dropped. -/
def deactivated (db : Db) (s c : Int) : Db :=
  { db with
    registrations := Table.update (RegistrationRow.activePair s c)
      (RegistrationRow.setStatus "dropped") db.registrations }

def enrolledIn (db : Db) (s c : Int) : Bool :=
  0 < db.registrations.countP (RegistrationRow.activePair s c)

/-- Registering a student: the answer and the tables after it. -/
def register (db : Db) (s c : Int) : RegistrationResult × Db :=
  match db.findCourse c with
  | none => ({ error := "Course not found" }, db)
  | some course =>
    if db.enrolledIn s c then
      ({ error := "Already enrolled in this course"
         remainingSeats := some (course.capacity - db.active c) }, db)
    else if course.capacity - db.active c ≤ 0 then ({ error := "Course is full" }, db)
    else
      match db.activate s c with
      | none => ({ error := "Registration failed: Failed to create registration" }, db)
      | some (id, db') =>
        ({ success := true, registrationId := id,
           remainingSeats := some (course.capacity - db.active c - 1) }, db')

/-- Dropping a student. The code adds one to a count that already lacks the student. -/
def drop (db : Db) (s c : Int) : RegistrationResult × Db :=
  if db.enrolledIn s c then
    let db' := db.deactivated s c
    match db'.findCourse c with
    | none => ({ success := true }, db')
    | some course =>
      ({ success := true, remainingSeats := addInt (course.capacity - db'.active c) 1 }, db')
  else ({ error := "Not enrolled in this course" }, db)

theorem findCourse_id {db : Db} {id : Int} {row : CourseRow} (h : db.findCourse id = some row) :
    row.id = id := by
  simpa using List.find?_some h

theorem join_enrolledCount {db : Db} {id : Int} {row : CourseRow}
    (h : db.findCourse id = some row) : (db.join row).enrolledCount = db.active id := by
  rw [join, findCourse_id h]

theorem findCourse_mem {db : Db} {id : Int} {row : CourseRow} (h : db.findCourse id = some row) :
    row ∈ db.courses := List.mem_of_find?_eq_some h

theorem reactivateRegistration_eq (db : Db) (s c : Int) :
    db.reactivateRegistration s c = some {
      db := db.reactivated s c
      changed := db.registrations.countP (RegistrationRow.droppedPair s c) } := rfl

theorem dropRegistration_eq (db : Db) (s c : Int) :
    db.dropRegistration s c = some {
      db := db.deactivated s c
      changed := db.registrations.countP (RegistrationRow.activePair s c) } := rfl

theorem reactivated_eq_self {db : Db} {s c : Int}
    (h : db.registrations.countP (RegistrationRow.droppedPair s c) = 0) :
    db.reactivated s c = db := by
  rw [reactivated, Table.update_eq_self]
  intro r hr hp
  exact absurd hp (List.countP_eq_zero.mp h r hr)

theorem insertRegistration_rowid {db : Db} {s c : Int} {applied : Applied}
    (h : db.insertRegistration s c = some applied) : ∃ id, applied.rowid = some id := by
  simp only [insertRegistration] at h
  split at h
  · cases h
    exact ⟨_, rfl⟩
  · cases h

end Db

namespace Conn

variable {α : Type} {W : Write → Prop} {now : Int}

/-- The connection after a `BEGIN IMMEDIATE` that finds no open transaction. -/
def begun (conn : Conn) : Conn := { conn with saved := some conn.db }

@[simp] theorem begun_db (conn : Conn) : conn.begun.db = conn.db := rfl

@[simp] theorem begun_saved (conn : Conn) : conn.begun.saved = some conn.db := rfl

theorem runExcept_beginTransaction {conn : Conn} (hs : conn.saved = none) :
    conn.runExcept now Database.beginTransaction = (.ok (), conn.begun) := by
  simp [Database.beginTransaction, Database.execute, exec, hs, begun]

theorem runExcept_commit {conn : Conn} {d : Db} (hs : conn.saved = some d) :
    conn.runExcept now Database.commit = (.ok (), { conn with saved := none }) := by
  simp [Database.commit, Database.execute, exec, hs]

theorem runExcept_rollback {conn : Conn} {d : Db} (hs : conn.saved = some d) :
    conn.runExcept now Database.rollback = (.ok (), { conn with db := d, saved := none }) := by
  simp [Database.rollback, Database.execute, exec, hs]

/-- On a connection without an open transaction, `transaction` keeps what the function did
if it returns and restores the tables if it throws. -/
theorem runExcept_transaction {func : SqlExcept α} (hf : WithinExcept W func) {conn : Conn}
    (hs : conn.saved = none) :
    conn.runExcept now (Database.transaction func) =
      match conn.begun.runExcept now func with
      | (.ok a, conn') => (.ok a, { conn' with saved := none })
      | (.error e, conn') => (.error e, { conn' with db := conn.db, saved := none }) := by
  have hsaved : (conn.begun.runExcept now func).2.saved = some conn.db := run_saved hf conn.begun
  simp only [Database.transaction, runExcept_bind, runExcept_tryCatch,
    runExcept_beginTransaction hs]
  rcases hr : conn.begun.runExcept now func with ⟨_ | _, conn'⟩
  · rw [hr] at hsaved
    simp [runExcept_rollback hsaved]
  · rw [hr] at hsaved
    simp [runExcept_commit hsaved]

/-- What `create` does, inside or outside a transaction. -/
theorem runExcept_registrationCreate (now s c : Int) (conn : Conn) :
    ((conn.runExcept now (RegistrationRepository.create s c)).1,
        (conn.runExcept now (RegistrationRepository.create s c)).2.db) =
      match conn.db.activate s c with
      | none => (.error (.std "Failed to create registration"), conn.db)
      | some (id, db') => (.ok id, db') := by
  simp only [RegistrationRepository.create, runExcept_bind, runExcept_liftM, run_sql,
    run_stepWrite, exec, write, Write.apply, Db.reactivateRegistration_eq, Db.activate]
  by_cases h : 0 < conn.db.registrations.countP (RegistrationRow.droppedPair s c)
  · rw [if_pos (by omega), if_pos h]
    rfl
  · rw [if_neg (by omega), if_neg h, Db.reactivated_eq_self (by omega)]
    simp only [runExcept_bind, runExcept_liftM, run_stepWrite, write, Write.apply]
    cases hi : conn.db.insertRegistration s c with
    | none => rfl
    | some applied =>
      obtain ⟨id, hid⟩ := Db.insertRegistration_rowid hi
      simp [hid, exec]

@[simp] theorem run_courseById (id : Int) (conn : Conn) :
    conn.run now (CourseRepository.findById id) =
      ((conn.db.findCourse id).map fun row => rowToCourse (conn.db.join row), conn) := by
  simp only [CourseRepository.findById, Prog.bind_eq, run_bind, run_select, Query.eval,
    Prog.pure_eq, run_ret, Option.map_map]
  rfl

@[simp] theorem run_exists' (s c : Int) (conn : Conn) :
    conn.run now (RegistrationRepository.exists' s c) = (conn.db.enrolledIn s c, conn) := by
  simp [RegistrationRepository.exists', Query.eval, Db.enrolledIn]

@[simp] theorem run_getEnrolledCount (c : Int) (conn : Conn) :
    conn.run now (CourseRepository.getEnrolledCount c) = ((conn.db.active c : Int), conn) := rfl

/-- The function passed to `transaction` by `register_student`, a throw undone. -/
theorem runExcept_registerTransaction (now s c : Int) (conn : Conn) :
    (match conn.runExcept now (RegistrationService.registerTransaction s c) with
      | (.ok result, conn') => (result, conn'.db)
      | (.error e, _) => ({ error := "Registration failed: " ++ e.what }, conn.db)) =
      conn.db.register s c := by
  simp only [RegistrationService.registerTransaction, runExcept_bind, runExcept_liftM,
    run_courseById, Db.register]
  cases hc : conn.db.findCourse c with
  | none => rfl
  | some row =>
    have hcount := Db.join_enrolledCount hc
    have hcap : (conn.db.join row).row.capacity = row.capacity := rfl
    simp only [Option.map_some, rowToCourse, hcount, hcap, runExcept_bind, runExcept_liftM,
      run_exists']
    by_cases henrolled : conn.db.enrolledIn s c = true
    · rw [if_pos henrolled, if_pos henrolled]
      rfl
    rw [if_neg henrolled, if_neg henrolled]
    simp only [runExcept_bind, runExcept_liftM, run_getEnrolledCount]
    by_cases hfull : row.capacity - conn.db.active c ≤ 0
    · rw [if_pos hfull, if_pos hfull]
      rfl
    rw [if_neg hfull, if_neg hfull]
    have hcreate := runExcept_registrationCreate now s c conn
    simp only [runExcept_bind]
    rcases hr : conn.runExcept now (RegistrationRepository.create s c) with ⟨_ | id, conn'⟩ <;>
      rw [hr] at hcreate <;>
      cases ha : conn.db.activate s c with
      | none => simp_all [Exn.what]
      | some out => simp_all

/-- Alone on the connection, `register_student` registers the student. -/
theorem run_registerStudent (now s c : Int) {conn : Conn} (hs : conn.saved = none) :
    ((conn.run now (RegistrationService.registerStudent s c)).1,
        (conn.run now (RegistrationService.registerStudent s c)).2.db) =
      conn.db.register s c := by
  have hbody : WithinExcept (fun _ => True) (RegistrationService.registerTransaction s c) :=
    within_registerTransaction trivial trivial
  rw [← conn.begun_db, ← runExcept_registerTransaction now s c conn.begun]
  simp only [RegistrationService.registerStudent, Prog.bind_eq, run_bind, run_run,
    runExcept_transaction hbody hs]
  rcases conn.begun.runExcept now (RegistrationService.registerTransaction s c)
    with ⟨_ | _, _⟩ <;> rfl

/-- The function passed to `transaction` by `drop_student`, which never throws. -/
theorem runExcept_dropTransaction (now s c : Int) (conn : Conn) :
    ((conn.runExcept now (RegistrationService.dropTransaction s c)).1,
        (conn.runExcept now (RegistrationService.dropTransaction s c)).2.db) =
      (.ok (conn.db.drop s c).1, (conn.db.drop s c).2) := by
  simp only [RegistrationService.dropTransaction, runExcept_bind, runExcept_liftM, run_exists',
    Db.drop]
  by_cases henrolled : conn.db.enrolledIn s c = true
  · rw [if_pos henrolled, if_pos henrolled]
    simp only [RegistrationRepository.dropRegistration, runExcept_bind, runExcept_liftM,
      run_stepWrite, write, Write.apply, Db.dropRegistration_eq, run_courseById]
    cases hc : (conn.db.deactivated s c).findCourse c with
    | none => rfl
    | some row =>
      simp only [Option.map_some, rowToCourse, Db.join_enrolledCount hc]
      rfl
  · rw [if_neg henrolled, if_neg henrolled]
    rfl

/-- Alone on the connection, `drop_student` drops the student. -/
theorem run_dropStudent (now s c : Int) {conn : Conn} (hs : conn.saved = none) :
    ((conn.run now (RegistrationService.dropStudent s c)).1,
        (conn.run now (RegistrationService.dropStudent s c)).2.db) =
      conn.db.drop s c := by
  have hbody : WithinExcept (fun _ => True) (RegistrationService.dropTransaction s c) :=
    within_dropTransaction trivial
  have h := runExcept_dropTransaction now s c conn.begun
  simp only [RegistrationService.dropStudent, Prog.bind_eq, run_bind, run_run,
    runExcept_transaction hbody hs]
  rcases hr : conn.begun.runExcept now (RegistrationService.dropTransaction s c)
    with ⟨_ | result, conn'⟩
  · simp [hr] at h
  · simp only [hr, begun_db, Prod.mk.injEq, Except.ok.injEq] at h
    simp [h]

/-- A transaction begun on a connection without one is closed whether or not it throws. -/
theorem runExcept_transaction_saved (now : Int) {func : SqlExcept α} (hf : WithinExcept W func)
    {conn : Conn} (hs : conn.saved = none) :
    (conn.runExcept now (Database.transaction func)).2.saved = none := by
  rw [runExcept_transaction hf hs]
  rcases conn.begun.runExcept now func with ⟨_ | _, _⟩ <;> rfl

theorem run_registerStudent_saved (now s c : Int) {conn : Conn} (hs : conn.saved = none) :
    (conn.run now (RegistrationService.registerStudent s c)).2.saved = none := by
  have hbody : WithinExcept (fun _ => True) (RegistrationService.registerTransaction s c) :=
    within_registerTransaction trivial trivial
  have h := runExcept_transaction_saved now hbody hs
  simp only [RegistrationService.registerStudent, Prog.bind_eq, run_bind, run_run]
  rcases hr : conn.runExcept now
    (Database.transaction (RegistrationService.registerTransaction s c)) with ⟨_ | _, _⟩ <;>
  · rw [hr] at h
    exact h

theorem run_dropStudent_saved (now s c : Int) {conn : Conn} (hs : conn.saved = none) :
    (conn.run now (RegistrationService.dropStudent s c)).2.saved = none := by
  have hbody : WithinExcept (fun _ => True) (RegistrationService.dropTransaction s c) :=
    within_dropTransaction trivial
  have h := runExcept_transaction_saved now hbody hs
  simp only [RegistrationService.dropStudent, Prog.bind_eq, run_bind, run_run]
  rcases hr : conn.runExcept now
    (Database.transaction (RegistrationService.dropTransaction s c)) with ⟨_ | _, _⟩ <;>
  · rw [hr] at h
    exact h

end Conn

end AcademiaCr.Backend
