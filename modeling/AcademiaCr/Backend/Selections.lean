import AcademiaCr.Backend.Accounts
import AcademiaCr.Backend.CourseValidity

/-!
# Selections

What the statements that select many rows return. Keys are unique and references lead
somewhere, so that the joins neither repeat nor lose a row: the courses are those of the
table in the order of their codes, the registrations those of the table.

## Main definitions

- `Db.course`: the record of a course row
- `run_findAll`, `run_findByFaculty`, `run_findByStudent`, `run_findByCourse`: the results
- `Storable`, `Reachable.storable`: texts and numbers that a column gives back as they are
-/

namespace AcademiaCr.Backend

namespace Db

variable {db : Db}

/-- The record of a course row. -/
def course (db : Db) (row : CourseRow) : Course := rowToCourse (db.join row)

/-- The owner of a course, if it has one. -/
def owner (db : Db) (row : CourseRow) : Option UserRow := row.facultyId.bind db.findUser

theorem courseOwners_eq (hv : db.Valid) :
    db.courseOwners = db.courses.map fun row => (row, db.owner row) := by
  refine Table.leftJoin_eq_map fun row _ => ?_
  cases hf : row.facultyId with
  | none => simp [owner, hf]
  | some f =>
    have hkey : (fun u : UserRow => decide (some f = some u.id)) = fun u => decide (u.id = f) := by
      funext u
      simp only [Option.some.injEq, eq_comm]
    rw [hkey, Table.filter_key_eq_toList hv.userIds, owner, hf]
    rfl

/-- A selection of courses, in the order of their codes. -/
theorem selectCourses_eq (hv : db.Valid) (p : CourseRow × Option UserRow → Bool) :
    (db.selectCourses p).map rowToCourse =
      (Table.orderBy (·.row.courseCode)
        ((db.courses.filter fun row => p (row, db.owner row)).map db.join)).map rowToCourse := by
  rw [selectCourses, courseOwners_eq hv, List.filter_map, List.map_map]
  rfl

theorem perm_selectCourses (hv : db.Valid) (p : CourseRow × Option UserRow → Bool) :
    ((db.selectCourses p).map rowToCourse).Perm
      ((db.courses.filter fun row => p (row, db.owner row)).map db.course) := by
  rw [selectCourses_eq hv]
  refine ((Table.orderBy_perm _ _).map rowToCourse).trans ?_
  rw [List.map_map]
  exact List.Perm.refl _

theorem mem_selectCourses (hv : db.Valid) {p : CourseRow × Option UserRow → Bool}
    {course : Course} : course ∈ (db.selectCourses p).map rowToCourse ↔
      ∃ row ∈ db.courses, p (row, db.owner row) = true ∧ db.course row = course := by
  rw [(perm_selectCourses hv p).mem_iff]
  simp only [List.mem_map, List.mem_filter, and_assoc]

/-- No two selected courses have the same code. -/
theorem selectCourses_strict (hv : db.Valid) (p : CourseRow × Option UserRow → Bool) :
    ((db.selectCourses p).map rowToCourse).Pairwise fun a b => a.courseCode < b.courseCode := by
  have hcodes : (((db.courses.filter fun row => p (row, db.owner row)).map db.join).map
      (·.row.courseCode)).Nodup := by
    rw [List.map_map]
    exact Table.nodup_filter_key hv.courseCodes _
  rw [selectCourses_eq hv, List.pairwise_map]
  exact Table.orderBy_strict hcodes

/-! ## Registrations -/

/-- The joins with students and courses keep the rows of the table. -/
theorem map_row_joinedRegistrations (hv : db.Valid) :
    db.joinedRegistrations.map (·.row) = db.registrations := by
  have hstudents : (Table.innerJoin (fun r u => r.studentId = u.id) db.registrations
      db.users).map (·.1) = db.registrations := by
    refine (Table.map_innerJoin fun r hr => ?_).trans (List.map_id _)
    obtain ⟨u, -, hu⟩ := Table.exists_partner hv.userIds (hv.student r hr)
    rw [hu]
    rfl
  rw [joinedRegistrations, List.map_map]
  refine (Table.map_innerJoin fun r hr => ?_).trans hstudents
  obtain ⟨c, -, hc⟩ := Table.exists_partner hv.courseIds
    (hv.course r.1 (Table.mem_innerJoin.mp hr).1)
  rw [hc]
  rfl

/-- The rows behind a selection of registrations. -/
theorem map_row_filter (hv : db.Valid) (p : RegistrationRow → Bool) :
    (db.joinedRegistrations.filter fun r => p r.row).map (·.row) = db.registrations.filter p := by
  rw [← map_row_joinedRegistrations hv, List.filter_map]
  rfl

/-- The credits of the course that a registration is for. -/
def creditsFor (db : Db) (c : Int) : Int := ((db.findCourse c).map (·.credits)).getD 0

theorem creditsOf_eq (hv : db.Valid) (s : Int) :
    db.creditsOf s = (db.registrations.filter (RegistrationRow.activeOf s)).map fun r =>
      db.creditsFor r.courseId := by
  refine Table.map_innerJoin fun r hr => ?_
  obtain ⟨c, hfind, hc⟩ := Table.exists_partner hv.courseIds
    (hv.course r (List.mem_filter.mp hr).1)
  have hfound : db.findCourse r.courseId = some c := hfind
  rw [hc, creditsFor, hfound]
  rfl

end Db

/-! ## Results of the repositories -/

namespace Conn

variable {now : Int} (conn : Conn)

@[simp] theorem run_findByCode (code : String) :
    conn.run now (CourseRepository.findByCode code) =
      ((conn.db.courses.find? (·.courseCode = bindText code)).map conn.db.course, conn) := by
  simp only [CourseRepository.findByCode, Resumption.Prog.bind_eq, run_bind, run_select,
    Query.eval, Resumption.Prog.pure_eq, run_ret, Option.map_map]
  rfl

@[simp] theorem run_findAll : conn.run now CourseRepository.findAll =
    ((conn.db.selectCourses fun _ => true).map rowToCourse, conn) := rfl

@[simp] theorem run_findByFaculty (f : Int) :
    conn.run now (CourseRepository.findByFaculty f) =
      ((conn.db.selectCourses fun r => r.1.facultyId = some f).map rowToCourse, conn) := rfl

@[simp] theorem run_findByStudent (s : Int) (status : String) :
    conn.run now (RegistrationRepository.findByStudent s status) =
      ((conn.db.joinedRegistrations.filter fun r =>
        r.row.studentId = s ∧ r.row.status = bindText status).map rowToRegistration, conn) := rfl

@[simp] theorem run_findByCourse (c : Int) (status : String) :
    conn.run now (RegistrationRepository.findByCourse c status) =
      ((Table.orderBy (·.studentName) (conn.db.joinedRegistrations.filter fun r =>
        r.row.courseId = c ∧ r.row.status = bindText status)).map rowToRegistration, conn) := rfl

@[simp] theorem run_countActive : conn.run now RegistrationRepository.countActive =
    (columnInt (conn.db.registrations.countP (·.status = "active")), conn) := rfl

@[simp] theorem run_countByStudent (s : Int) :
    conn.run now (RegistrationRepository.countByStudent s) =
      (columnInt (conn.db.registrations.countP (RegistrationRow.activeOf s)), conn) := rfl

@[simp] theorem run_totalCreditsForStudent (s : Int) :
    conn.run now (RegistrationRepository.totalCreditsForStudent s) =
      (columnInt ((sumInt64 (conn.db.creditsOf s)).getD 0), conn) := rfl

end Conn

/-! ## What a column gives back -/

/-- A code without a NUL character, and numbers that an `int` holds. -/
def Storable (columns : String × String × Int × Int) : Prop :=
  bindText columns.1 = columns.1 ∧ columnInt columns.2.2.1 = columns.2.2.1 ∧
    columnInt columns.2.2.2 = columns.2.2.2

theorem Exn.ok_of_bind {α β : Type} {x : Except Exn α} {f : α → Except Exn β} {b : β}
    (h : x >>= f = .ok b) : ∃ a, x = .ok a ∧ f a = .ok b := by
  cases x with
  | error e => cases h
  | ok a => exact ⟨a, rfl, h⟩

/-- A number that `get<int>` reads fits a column of integers. -/
theorem Json.columnInt_of_field {j : Json} {key : String} {default n : Int}
    (h : j.field key getInt default = .ok n) (hd : columnInt default = default) :
    columnInt n = n := by
  simp only [field] at h
  split at h
  · cases h
    exact hd
  · next v _ =>
    cases v with
    | int m | float m =>
      cases h
      exact Int.bmod_bmod
    | bool b =>
      cases h
      cases b <;> decide
    | null | str | arr | obj => cases h

theorem Course.columnInt_of_fromJson {json : Json} {course : Course}
    (h : Course.fromJson json = .ok course) :
    columnInt course.capacity = course.capacity ∧ columnInt course.credits = course.credits := by
  obtain ⟨id, -, h⟩ := Exn.ok_of_bind h
  obtain ⟨code, -, h⟩ := Exn.ok_of_bind h
  obtain ⟨name, -, h⟩ := Exn.ok_of_bind h
  obtain ⟨credits, hcredits, h⟩ := Exn.ok_of_bind h
  obtain ⟨facultyId, -, h⟩ := Exn.ok_of_bind h
  obtain ⟨capacity, hcapacity, h⟩ := Exn.ok_of_bind h
  obtain ⟨schedule, -, h⟩ := Exn.ok_of_bind h
  cases h
  exact ⟨Json.columnInt_of_field hcapacity (by decide),
    Json.columnInt_of_field hcredits (by decide)⟩

/-- Every request stores such columns: the binding cuts the code, the parser the numbers. -/
theorem writesColumns_storable {db : Db} (h : db.Columns Storable) (user : User)
    (request : Endpoint) : request.WritesColumns Storable db user := by
  cases request with
  | postCourses body =>
    cases body with
    | none => trivial
    | some json =>
      intro course hcourse _ _
      have hints := Course.columnInt_of_fromJson hcourse
      refine ⟨bindText_bindText _, ?_, ?_⟩
      · show columnInt (ownedBy user course).capacity = (ownedBy user course).capacity
        unfold ownedBy
        split <;> exact hints.1
      · show columnInt (ownedBy user course).credits = (ownedBy user course).credits
        unfold ownedBy
        split <;> exact hints.2
  | putCourse id body =>
    cases body with
    | none => trivial
    | some json =>
      intro course hcourse _ _ row hrow
      exact ⟨(h row (Db.findCourse_mem hrow)).1, Course.columnInt_of_fromJson hcourse⟩
  | postUsers | putUser | deleteUser | deleteCourse | postRegister | deleteRegister => trivial

theorem startup_storable (seed : Bool) : (startup seed).db.Columns Storable := by
  cases seed with
  | false => exact fun c hc => absurd hc List.not_mem_nil
  | true =>
    show ∀ c ∈ (startup true).db.courses, bindText c.courseCode = c.courseCode ∧
      columnInt c.capacity = c.capacity ∧ columnInt c.credits = c.credits
    decide +kernel

/-- In every reachable state the columns hold what was bound. -/
theorem Reachable.storable {s : Api} (h : Reachable s) : s.conn.db.Columns Storable := by
  obtain ⟨seed, clock, history, hr⟩ := h
  induction hr with
  | start => exact startup_storable seed
  | @snoc history s s' call hr hstep ih =>
    have hs : Sound s.conn := Reachable.sound ⟨seed, clock, history, hr⟩
    obtain ⟨-, hconn, -⟩ := Api.step_cases hstep
    rw [hconn]
    exact call_columns hs.idle hs.valid ih fun _ request _ user _ _ =>
      writesColumns_storable ih user request

end AcademiaCr.Backend
