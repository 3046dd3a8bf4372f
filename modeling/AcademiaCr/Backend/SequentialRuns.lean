import AcademiaCr.Backend.CourseWrites
import AcademiaCr.Backend.Seats

/-!
# Sequential runs of the server

Requests one after another, from a fresh or a seeded database. `Sound` collects what holds
between two requests: no transaction is open, the constraints hold and no course is
overbooked.

## Main definitions

- `Database.seedData`, `startup`: the database that the server starts with
- `Operation`: the calls that change users, courses and registrations
- `Sound`: the invariant of sequential runs
-/

namespace AcademiaCr.Backend

open Resumption

/-! ## Startup -/

namespace Database

/-- Execute statements in order. The first that fails ends the list: `execute` throws. -/
def executeAll : List Write → Sql Bool
  | [] => return true
  | w :: ws => do
    if ← stepWrite w then executeAll ws else return false

/-- A demo user. The prepared statement is stepped without looking at the outcome; `active`
has its default. -/
def seedUser (username hash role name email : String) : Sql Unit := do
  let _ ← stepWrite (.insertUser username hash role name email 1)

/-- Demo data for an empty database. Yields whether it returned rather than threw. -/
def seedData : Sql Bool := do
  let users : Int ← select .userCount
  if users > 0 then return true
  else
    let adminHash := hashPassword "admin123"
    let facultyHash := hashPassword "faculty123"
    let studentHash := hashPassword "student123"
    seedUser "admin" adminHash "admin" "System Administrator" "admin@academia.edu"
    seedUser "dr.smith" facultyHash "faculty" "Dr. Alice Smith" "alice.smith@academia.edu"
    seedUser "dr.jones" facultyHash "faculty" "Dr. Bob Jones" "bob.jones@academia.edu"
    seedUser "dr.wilson" facultyHash "faculty" "Dr. Carol Wilson" "carol.wilson@academia.edu"
    seedUser "john.doe" studentHash "student" "John Doe" "john.doe@academia.edu"
    seedUser "jane.doe" studentHash "student" "Jane Doe" "jane.doe@academia.edu"
    seedUser "mike.ross" studentHash "student" "Mike Ross" "mike.ross@academia.edu"
    seedUser "sarah.lee" studentHash "student" "Sarah Lee" "sarah.lee@academia.edu"
    seedUser "alex.kim" studentHash "student" "Alex Kim" "alex.kim@academia.edu"
    if ← executeAll [
        .insertCourse "CS301" "Operating Systems" 4 2 40 "Mon/Wed 10:00-11:30",
        .insertCourse "CS302" "Computer Networks" 3 2 35 "Tue/Thu 14:00-15:30",
        .insertCourse "CS201" "Data Structures" 4 3 50 "Mon/Wed/Fri 09:00-10:00",
        .insertCourse "CS202" "Algorithms" 3 3 45 "Tue/Thu 10:00-11:30",
        .insertCourse "CS401" "Machine Learning" 3 4 30 "Wed/Fri 14:00-15:30",
        .insertCourse "CS402" "Database Systems" 3 4 40 "Mon/Wed 14:00-15:30",
        .insertCourse "CS101" "Intro to Programming" 3 2 60 "Mon/Wed/Fri 11:00-12:00",
        .insertCourse "CS501" "Distributed Systems" 4 3 25 "Tue/Thu 16:00-17:30"] then
      executeAll [
        .insertRegistration 5 1, .insertRegistration 5 3, .insertRegistration 5 5,
        .insertRegistration 6 1, .insertRegistration 6 2, .insertRegistration 6 4,
        .insertRegistration 7 2, .insertRegistration 7 3, .insertRegistration 8 1,
        .insertRegistration 8 5, .insertRegistration 8 6, .insertRegistration 9 4,
        .insertRegistration 9 6, .insertRegistration 9 7]
    else return false

end Database

/-- The connection after `initialize_schema` on a new file and, if asked for, `seed_data`. -/
def startup (seed : Bool) : Conn :=
  if seed then (({} : Conn).run 0 Database.seedData).2 else {}

/-! ## Operations -/

/-- The calls that change users, courses or registrations. User administration is there
twice: as the functions of the repository and as the handlers that call them. -/
inductive Operation where
  | registerStudent (studentId courseId : Int)
  | dropStudent (studentId courseId : Int)
  | createCourse (course : Course) (requester : User)
  | updateCourse (course : Course) (requester : User)
  | deleteCourse (id : Int) (requester : User)
  | createUser (user : User)
  | updateUser (user : User)
  | updatePassword (id : Int) (passwordHash : String)
  | removeUser (id : Int)
  | postUsers (authHeader : String) (body : Option Json)
  | putUser (authHeader : String) (id : Int) (body : Option Json)
  | deleteUser (authHeader : String) (id : Int)

/-- The connection after a complete call that no other call overlaps. -/
def Operation.run (now : Int) (conn : Conn) : Operation → Conn
  | registerStudent s c => (conn.run now (RegistrationService.registerStudent s c)).2
  | dropStudent s c => (conn.run now (RegistrationService.dropStudent s c)).2
  | createCourse course requester =>
    (conn.run now (CourseService.createCourse course requester)).2
  | updateCourse course requester =>
    (conn.run now (CourseService.updateCourse course requester)).2
  | deleteCourse id requester => (conn.run now (CourseService.deleteCourse id requester)).2
  | createUser user => (conn.runExcept now (UserRepository.create user)).2
  | updateUser user => (conn.run now (UserRepository.update user)).2
  | updatePassword id hash => (conn.run now (UserRepository.updatePassword id hash)).2
  | removeUser id => (conn.run now (UserRepository.remove id)).2
  | postUsers authHeader body =>
    (conn.runExcept now (AdminController.postUsers authHeader body)).2
  | putUser authHeader id body =>
    (conn.runExcept now (AdminController.putUser authHeader id body)).2
  | deleteUser authHeader id =>
    (conn.runExcept now (AdminController.deleteUser authHeader id)).2

/-- Calls one after another, each at its own time. -/
def Operation.runAll (conn : Conn) (ops : List (Operation × Int)) : Conn :=
  ops.foldl (fun conn op => op.1.run op.2 conn) conn

/-! ## The invariant -/

/-- What holds between two requests of a sequential run. -/
structure Sound (conn : Conn) : Prop where
  idle : conn.saved = none
  valid : conn.db.Valid
  seats : conn.db.NotOverbooked

namespace Sound

variable {conn : Conn} {now : Int}

theorem connValid (h : Sound conn) : conn.Valid :=
  ⟨h.valid, fun d hd => by rw [h.idle] at hd; cases hd⟩

/-- A program confined to statements that keep the seats keeps the invariant. -/
theorem run_within {α : Type} {p : Sql α} (hp : Within Write.keepsSeats p) (h : Sound conn) :
    Sound (conn.run now p).2 := by
  refine Conn.run_within hp (fun w c hw hc => ?_) h
  refine ⟨(c.write_saved now w).trans hc.idle, ?_, ?_⟩
  · exact (Conn.exec_valid now (.write w) hc.connValid).db
  · simp only [Conn.write]
    split
    · exact hc.seats
    · next a ha => exact w.apply_notOverbooked hc.valid hc.seats hw ha

theorem registerStudent (h : Sound conn) (s c : Int) :
    Sound (conn.run now (RegistrationService.registerStudent s c)).2 where
  idle := Conn.run_registerStudent_saved now s c h.idle
  valid := (Conn.run_valid _ h.connValid).db
  seats := by
    have hdb := congrArg Prod.snd (Conn.run_registerStudent now s c h.idle)
    dsimp only at hdb
    rw [hdb]
    exact Db.notOverbooked_register h.valid h.seats s c

theorem dropStudent (h : Sound conn) (s c : Int) :
    Sound (conn.run now (RegistrationService.dropStudent s c)).2 where
  idle := Conn.run_dropStudent_saved now s c h.idle
  valid := (Conn.run_valid _ h.connValid).db
  seats := by
    have hdb := congrArg Prod.snd (Conn.run_dropStudent now s c h.idle)
    dsimp only at hdb
    rw [hdb]
    exact Db.notOverbooked_drop h.seats s c

theorem updateCourse (h : Sound conn) (course : Course) (requester : User) :
    Sound (conn.run now (CourseService.updateCourse course requester)).2 := by
  rcases Conn.run_updateCourse now course requester conn with
    ⟨-, hconn⟩ | ⟨-, -, hcap, hconn⟩
  · rw [hconn]
    exact h
  · refine ⟨?_, (Conn.run_valid _ h.connValid).db, ?_⟩
    · rw [hconn, Conn.write_saved, h.idle]
    · rw [hconn]
      simp only [Conn.write, Write.apply]
      split
      · exact h.seats
      · next a ha => exact Db.notOverbooked_updateCourse h.seats hcap ha

/-- Every complete call keeps the invariant. -/
theorem step (h : Sound conn) (op : Operation) : Sound (op.run now conn) := by
  cases op with
  | registerStudent s c => exact h.registerStudent s c
  | dropStudent s c => exact h.dropStudent s c
  | createCourse course requester => exact h.run_within (within_createCourse trivial)
  | updateCourse course requester => exact h.updateCourse course requester
  | deleteCourse id requester => exact h.run_within (within_deleteCourse trivial)
  | createUser user => exact h.run_within (within_create trivial _)
  | updateUser user => exact h.run_within (within_stepWrite.mpr trivial)
  | updatePassword id hash => exact h.run_within (within_stepWrite.mpr trivial)
  | removeUser id => exact h.run_within (within_stepWrite.mpr trivial)
  | postUsers authHeader body => exact h.run_within (within_postUsers fun _ _ _ _ _ _ => trivial)
  | putUser authHeader id body =>
    exact h.run_within (within_putUser (fun _ _ _ _ => trivial) fun _ => trivial)
  | deleteUser authHeader id => exact h.run_within (within_deleteUser trivial)

theorem runAll (h : Sound conn) (ops : List (Operation × Int)) :
    Sound (Operation.runAll conn ops) := by
  induction ops generalizing conn with
  | nil => exact h
  | cons op ops ih => exact ih (h.step op.1)

end Sound

/-- The seeded courses have more seats than demo registrations. -/
theorem startup_notOverbooked (seed : Bool) : (startup seed).db.NotOverbooked := by
  have hseeded : ∀ c ∈ (startup true).db.courses,
      ((startup true).db.active c.id : Int) ≤ c.capacity := by
    decide +kernel
  cases seed with
  | false => exact Db.notOverbooked_empty
  | true => exact hseeded

theorem startup_sound (seed : Bool) : Sound (startup seed) where
  idle := by
    cases seed with
    | false => rfl
    | true => decide +kernel
  valid := by
    cases seed with
    | false => exact Db.valid_empty
    | true => exact (Conn.run_valid _ ⟨Db.valid_empty, fun d hd => by cases hd⟩).db
  seats := startup_notOverbooked seed

/-- Between the calls of every sequential run no course is overbooked, a student has one row
for a course at most, every row is active or dropped, and it names a user and a course
that exist. -/
theorem sequential_invariant (seed : Bool) (ops : List (Operation × Int)) :
    let db := (Operation.runAll (startup seed) ops).db
    (∀ c ∈ db.courses, (db.active c.id : Int) ≤ c.capacity) ∧
      (∀ s c, db.registrations.countP (RegistrationRow.ofPair s c) ≤ 1) ∧
      (∀ r ∈ db.registrations, r.status = "active" ∨ r.status = "dropped") ∧
      ∀ r ∈ db.registrations,
        (∃ u ∈ db.users, u.id = r.studentId) ∧ ∃ c ∈ db.courses, c.id = r.courseId := by
  have h := (startup_sound seed).runAll ops
  exact ⟨h.seats, h.valid.count_le_one, h.valid.status,
    fun r hr => ⟨h.valid.student r hr, h.valid.course r hr⟩⟩

end AcademiaCr.Backend
