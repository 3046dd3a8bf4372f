import AcademiaCr.Backend.RegistrationMachine

/-!
# Remaining seats

Both operations on registrations answer with the number of seats that remain.
`register_student` counts before it takes its seat and corrects the number by one.
`drop_student` corrects it as well, but counts after it has given the seat back.

## Main definitions

- `RegistrationCall`: the two operations
- `RemainingTrue`: the number in an answer is the number of free seats
- `remaining_true_iff`: which of the two answers with it
-/

namespace AcademiaCr.Backend

open Transition

/-- The operations on registrations. -/
inductive RegistrationCall where
  | registerStudent (studentId courseId : Int)
  | dropStudent (studentId courseId : Int)
  deriving DecidableEq, Repr

namespace RegistrationCall

def course : RegistrationCall → Int
  | registerStudent _ c | dropStudent _ c => c

/-- The answer of a complete call and the connection after it. -/
def run (now : Int) (conn : Conn) : RegistrationCall → RegistrationResult × Conn
  | registerStudent s c => conn.run now (RegistrationService.registerStudent s c)
  | dropStudent s c => conn.run now (RegistrationService.dropStudent s c)

def isRegistration : RegistrationCall → Bool
  | registerStudent _ _ => true
  | dropStudent _ _ => false

end RegistrationCall

/-- The answer has the number of free seats of the course, which lies between none and all. -/
def RemainingTrue (result : RegistrationResult) (c : Int) (db : Db) : Prop :=
  ∃ course ∈ db.courses, ∃ seats, course.id = c ∧ result.remainingSeats = some seats ∧
    seats = course.capacity - db.active c ∧ 0 ≤ seats ∧ seats ≤ course.capacity

namespace Db

variable {db : Db} {s c : Int}

/-- A registration counts the active rows, then adds one. -/
theorem register_remaining (hv : db.Valid) (h : (db.register s c).1.success = true) :
    ∃ course, db.findCourse c = some course ∧ (db.register s c).2.courses = db.courses ∧
      (db.register s c).1.remainingSeats =
        some (course.capacity - (db.register s c).2.active c) := by
  revert h
  simp only [register]
  split
  · exact fun h => absurd h Bool.false_ne_true
  · next course hfind =>
    split
    · exact fun h => absurd h Bool.false_ne_true
    · split
      · exact fun h => absurd h Bool.false_ne_true
      · split
        · exact fun h => absurd h Bool.false_ne_true
        · next id db' hactivate =>
          intro _
          have htaken : db'.active c = db.active c + if c = c then 1 else 0 :=
            active_activate hv hactivate c
          rw [if_pos rfl] at htaken
          refine ⟨course, hfind, activate_courses hactivate, congrArg some ?_⟩
          dsimp only
          omega

/-- A drop counts the rows that are still active, and adds a seat to what that leaves. -/
theorem drop_remaining (hv : db.Valid) (h : (db.drop s c).1.success = true) :
    ∃ course, db.findCourse c = some course ∧ (db.drop s c).2.courses = db.courses ∧
      (db.drop s c).1.remainingSeats =
        addInt (course.capacity - (db.drop s c).2.active c) 1 := by
  by_cases henrolled : db.enrolledIn s c = true
  · obtain ⟨r, hr, -⟩ := enrolledIn_iff.mp henrolled
    obtain ⟨hmem, -, hcourse⟩ := mem_rowsOf.mp hr
    obtain ⟨course, hmem, hid⟩ := hv.course r hmem
    have hfind : db.findCourse c = some course := by
      rw [← hcourse, ← hid]
      exact Table.find?_key hv.courseIds hmem
    have hfind' : (db.deactivated s c).findCourse c = some course := hfind
    refine ⟨course, hfind, ?_, ?_⟩
    · simp only [drop, if_pos henrolled, hfind']
      rfl
    · simp only [drop, if_pos henrolled, hfind']
  · rw [drop, if_neg henrolled] at h
    cases h

end Db

/-- In every sequential run, the number of remaining seats in the answer of a call that succeeds
is the true one if and only if the call is a registration. -/
theorem remaining_true_iff {seed : Bool} {history : List (Event Conn (ServerCall × Int))}
    {conn : Conn} (hr : Sequential seed history conn) (now : Int) (call : RegistrationCall)
    (hok : (call.run now conn).1.success = true) :
    RemainingTrue (call.run now conn).1 call.course (call.run now conn).2.db ↔
      call.isRegistration = true := by
  have h := Sequential.sound hr
  cases call with
  | registerStudent s c =>
    have hsound : Sound (conn.run now (RegistrationService.registerStudent s c)).2 :=
      h.registerStudent s c
    obtain ⟨hresult, hdb⟩ := Prod.ext_iff.mp (Conn.run_registerStudent now s c h.idle)
    dsimp only at hresult hdb
    simp only [RegistrationCall.run, RegistrationCall.course] at hok ⊢
    rw [hresult] at hok ⊢
    obtain ⟨course, hfind, hcourses, hremaining⟩ := Db.register_remaining h.valid hok
    rw [← hdb] at hcourses hremaining
    refine iff_of_true ⟨course, ?_, _, Db.findCourse_id hfind, hremaining, rfl, ?_, ?_⟩ rfl
    · rw [hcourses]
      exact Db.findCourse_mem hfind
    · -- the invariant of the run: no course is overbooked
      have hbound := hsound.seats course (by rw [hcourses]; exact Db.findCourse_mem hfind)
      rw [Db.findCourse_id hfind] at hbound
      omega
    · omega
  | dropStudent s c =>
    obtain ⟨hresult, hdb⟩ := Prod.ext_iff.mp (Conn.run_dropStudent now s c h.idle)
    dsimp only at hresult hdb
    simp only [RegistrationCall.run, RegistrationCall.course] at hok ⊢
    rw [hresult] at hok ⊢
    obtain ⟨course, hfind, hcourses, hremaining⟩ := Db.drop_remaining h.valid hok
    rw [← hdb] at hcourses hremaining
    -- the answer counts the seat that has been given back twice
    refine iff_of_false ?_ Bool.false_ne_true
    rintro ⟨course', hmem, seats, hid, hseats, htrue, -⟩
    rw [hcourses] at hmem
    have hsame : course' = course := Table.eq_of_key_eq h.valid.courseIds hmem
      (Db.findCourse_mem hfind) (hid.trans (Db.findCourse_id hfind).symm)
    rw [hsame] at htrue
    rw [hseats, addInt] at hremaining
    split at hremaining
    · have hsum := Option.some.inj hremaining
      omega
    · cases hremaining

/-- On the seeded database student 5 registers for course 7. -/
theorem remaining_true_iff_register :
    RemainingTrue ((RegistrationCall.registerStudent 5 7).run 0 (startup true)).1 7
      ((RegistrationCall.registerStudent 5 7).run 0 (startup true)).2.db :=
  (remaining_true_iff (Run.start : Sequential true [] (startup true)) 0 (.registerStudent 5 7)
    (by decide +kernel)).mpr rfl

/-- After student 5 has dropped course 1, two of its 40 seats are taken. The answer says that 39
remain. -/
theorem dropStudent_seat_too_many :
    ¬ ∀ (seed : Bool) (history : List (Event Conn (ServerCall × Int))) (conn : Conn),
      Sequential seed history conn → ∀ (now : Int) (call : RegistrationCall),
        (call.run now conn).1.success = true →
          RemainingTrue (call.run now conn).1 call.course (call.run now conn).2.db := by
  intro h
  have hok : ((RegistrationCall.dropStudent 5 1).run 0 (startup true)).1.success = true ∧
      ¬ ∃ course ∈ ((RegistrationCall.dropStudent 5 1).run 0 (startup true)).2.db.courses,
        course.id = 1 ∧ ((RegistrationCall.dropStudent 5 1).run 0 (startup true)).1.remainingSeats =
          some (course.capacity -
            ((RegistrationCall.dropStudent 5 1).run 0 (startup true)).2.db.active 1) := by
    decide +kernel
  obtain ⟨course, hmem, seats, hid, hseats, htrue, -⟩ :=
    h true [] _ Run.start 0 (.dropStudent 5 1) hok.1
  exact hok.2 ⟨course, hmem, hid, hseats.trans (congrArg some htrue)⟩

end AcademiaCr.Backend
