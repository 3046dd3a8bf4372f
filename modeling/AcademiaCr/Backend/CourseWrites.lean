import AcademiaCr.Backend.Registration

/-!
# What the course services write

`CourseService` call by call is a sequence of checks before one statement. These lemmas say
in one disjunction each what a call that no other request disturbs can do; later proofs
split on them and do not look at the code.

## Main definitions

- `Creatable`, `Updatable`: the checks of `create_course` and `update_course`
- `createCourse_cases`, `updateCourse_cases`, `run_deleteCourse`: the outcomes of the services
-/

namespace AcademiaCr.Backend

open Resumption

/-- Every check of `create_course` passes. -/
structure Creatable (db : Db) (course : Course) (requester : User) : Prop where
  role : requester.role = .admin ∨ requester.role = .faculty
  code : course.courseCode.isEmpty = false
  name : course.courseName.isEmpty = false
  capacity : 0 < course.capacity
  credits : 0 < course.credits ∧ course.credits ≤ 6
  fresh : db.courses.find? (·.courseCode = bindText course.courseCode) = none

/-- Every check of `update_course` passes. -/
structure Updatable (db : Db) (course : Course) (requester : User) : Prop where
  owner : ∃ row, db.findCourse course.id = some row ∧
    (requester.role = .faculty → row.facultyId.getD 0 = requester.id)
  name : course.courseName.isEmpty = false
  capacity : 0 < course.capacity
  seats : (db.active course.id : Int) ≤ course.capacity

/-- The insertion that `create_course` asks for. -/
def Db.insertGiven (db : Db) (course : Course) : Option Applied :=
  db.insertCourse course.courseCode course.courseName course.credits course.facultyId
    course.capacity course.schedule

/-- The update that `update_course` asks for. -/
def updateGiven (course : Course) : Write :=
  .updateCourse course.courseName course.credits course.facultyId course.capacity course.schedule
    course.id

/-- The row that an insertion adds. -/
def Course.newRow (course : Course) (id : Int) : CourseRow where
  id := id
  courseCode := bindText course.courseCode
  courseName := bindText course.courseName
  credits := course.credits
  facultyId := some course.facultyId
  capacity := course.capacity
  schedule := bindText course.schedule

/-- The row after an update. -/
def Course.overwrite (course : Course) (c : CourseRow) : CourseRow :=
  { course.newRow c.id with courseCode := c.courseCode }

/-- What an insertion of a course does when the constraints allow it. -/
theorem Db.insertGiven_eq_some {db : Db} {course : Course} {applied : Applied}
    (h : db.insertGiven course = some applied) : ∃ id, (∀ c ∈ db.courses, c.id ≠ id) ∧
      applied.rowid = some id ∧
      applied.db = { db with courses := db.courses ++ [course.newRow id], courseSeq := id } := by
  simp only [insertGiven, insertCourse] at h
  split at h
  · cases h
    exact ⟨_, fun c hc => (Table.lt_nextKey (List.mem_map_of_mem hc)).ne, rfl, rfl⟩
  · cases h

/-- An update whose owner is a user rewrites the row. -/
theorem effect_updateGiven (now : Int) {db : Db} {course : Course} (hcap : 0 < course.capacity)
    (howner : db.userExists course.facultyId = true) : (updateGiven course).effect now db =
      { db with courses := Table.update (·.id = course.id) course.overwrite db.courses } := by
  simp only [updateGiven, Write.effect, Write.apply, Db.updateCourse]
  rw [if_neg (by simp [hcap, howner])]
  rfl

/-- An update of a stored course fails if its owner is no user. -/
theorem effect_updateGiven_of_noOwner (now : Int) {db : Db} {course : Course}
    (hc : db.courseExists course.id = true) (hno : db.userExists course.facultyId = false) :
    (updateGiven course).effect now db = db := by
  simp only [updateGiven, Write.effect, Write.apply, Db.updateCourse]
  rw [if_pos (by simp [hc, hno])]
  rfl

namespace Conn

variable {now : Int}

@[simp] theorem run_courseByCode (code : String) (conn : Conn) :
    (conn.run now (CourseRepository.findByCode code)).2 = conn := by
  simp [CourseRepository.findByCode]

/-- An insertion reports whether the statement succeeded. -/
theorem run_courseCreate (now : Int) (course : Course) (conn : Conn) :
    (∃ e, (conn.runExcept now (CourseRepository.create course)).1 = .error e ∧
      (conn.runExcept now (CourseRepository.create course)).2.db = conn.db) ∨
    (∃ applied, conn.db.insertCourse course.courseCode course.courseName course.credits
        course.facultyId course.capacity course.schedule = some applied ∧
      (conn.runExcept now (CourseRepository.create course)).1 = .ok (applied.rowid.getD 0) ∧
      (conn.runExcept now (CourseRepository.create course)).2.db = applied.db) := by
  simp only [CourseRepository.create, runExcept_bind, runExcept_liftM, run_stepWrite, write,
    Write.apply]
  cases h : conn.db.insertCourse course.courseCode course.courseName course.credits
      course.facultyId course.capacity course.schedule with
  | none => exact Or.inl ⟨_, rfl, rfl⟩
  | some applied =>
    have hid : ∃ id, applied.rowid = some id := by
      simp only [Db.insertCourse] at h
      split at h
      · cases h
        exact ⟨_, rfl⟩
      · cases h
    obtain ⟨id, hid⟩ := hid
    refine Or.inr ⟨applied, rfl, ?_, ?_⟩ <;> simp [hid, exec]

/-- A course passes the checks and is inserted, or nothing happens. -/
theorem createCourse_cases (now : Int) (course : Course) (requester : User) (conn : Conn) :
    (¬ (Creatable conn.db course requester ∧ (conn.db.insertGiven course).isSome = true) ∧
      (conn.run now (CourseService.createCourse course requester)).1.success = false ∧
      (conn.run now (CourseService.createCourse course requester)).2.db = conn.db) ∨
    (Creatable conn.db course requester ∧ ∃ applied, conn.db.insertGiven course = some applied ∧
      (conn.run now (CourseService.createCourse course requester)).1 =
        { success := true, courseId := applied.rowid.getD 0 } ∧
      (conn.run now (CourseService.createCourse course requester)).2.db = applied.db) := by
  unfold CourseService.createCourse
  split
  · next hrole => exact Or.inl ⟨fun h => by rcases h.1.role with h | h <;> simp_all, rfl, rfl⟩
  next hrole =>
  split
  · next hcode => exact Or.inl ⟨fun h => by simp [h.1.code] at hcode, rfl, rfl⟩
  next hcode =>
  split
  · next hname => exact Or.inl ⟨fun h => by simp [h.1.name] at hname, rfl, rfl⟩
  next hname =>
  split
  · next hcap => exact Or.inl ⟨fun h => by have := h.1.capacity; omega, rfl, rfl⟩
  next hcap =>
  split
  · next hcredits => exact Or.inl ⟨fun h => by have := h.1.credits; omega, rfl, rfl⟩
  next hcredits =>
  have hfind : (conn.run now (CourseRepository.findByCode course.courseCode)).1.isSome =
      (conn.db.courses.find? (·.courseCode = bindText course.courseCode)).isSome := by
    simp [CourseRepository.findByCode, Query.eval]
  simp only [Prog.bind_eq, run_bind, run_courseByCode, hfind]
  split
  · next hfresh => exact Or.inl ⟨fun h => by simp [h.1.fresh] at hfresh, rfl, rfl⟩
  next hfresh =>
  -- all checks have passed, only the constraints of the table are left
  have hok : Creatable conn.db course requester :=
    { role := by by_contra hno; push Not at hno; exact hrole hno
      code := by simpa using hcode
      name := by simpa using hname
      capacity := by omega
      credits := by omega
      fresh := by simpa using hfresh }
  simp only [run_bind, run_run]
  obtain ⟨e, he, hdb⟩ | ⟨applied, ha, hid, hdb⟩ := run_courseCreate now course conn
  · rw [he]
    refine Or.inl ⟨fun h => ?_, rfl, hdb⟩
    simp only [CourseRepository.create, runExcept_bind, runExcept_liftM, run_stepWrite, write,
      Write.apply] at he
    obtain ⟨applied, ha⟩ := Option.isSome_iff_exists.mp h.2
    rw [Db.insertGiven] at ha
    simp [ha] at he
  · rw [hid]
    exact Or.inr ⟨hok, applied, ha, rfl, hdb⟩

/-- A course is created by an administrator or a faculty member, or not at all. -/
theorem run_createCourse (now : Int) (course : Course) (requester : User) (conn : Conn) :
    ((conn.run now (CourseService.createCourse course requester)).1.success = false ∧
      (conn.run now (CourseService.createCourse course requester)).2.db = conn.db) ∨
    ((conn.run now (CourseService.createCourse course requester)).1.success = true ∧
      (requester.role = .admin ∨ requester.role = .faculty) ∧
      ∃ applied, conn.db.insertCourse course.courseCode course.courseName course.credits
          course.facultyId course.capacity course.schedule = some applied ∧
        (conn.run now (CourseService.createCourse course requester)).2.db = applied.db) := by
  rcases createCourse_cases now course requester conn with
    ⟨-, hno, hdb⟩ | ⟨hok, applied, ha, hres, hdb⟩
  · exact Or.inl ⟨hno, hdb⟩
  · exact Or.inr ⟨by rw [hres], hok.role, applied, ha, hdb⟩

/-- A course passes the checks and the update is executed, or nothing happens. The service
reports success even where the statement fails. -/
theorem updateCourse_cases (now : Int) (course : Course) (requester : User) (conn : Conn) :
    (¬ Updatable conn.db course requester ∧
      (conn.run now (CourseService.updateCourse course requester)).1.success = false ∧
      (conn.run now (CourseService.updateCourse course requester)).2 = conn) ∨
    (Updatable conn.db course requester ∧
      (conn.run now (CourseService.updateCourse course requester)).1 =
        { success := true, courseId := course.id } ∧
      (conn.run now (CourseService.updateCourse course requester)).2 =
        (conn.write now (updateGiven course)).2) := by
  simp only [CourseService.updateCourse, Prog.bind_eq, run_bind, run_courseById]
  cases hrow : conn.db.findCourse course.id with
  | none => exact Or.inl ⟨fun h => by obtain ⟨row, hr, -⟩ := h.owner; simp [hrow] at hr, rfl, rfl⟩
  | some row =>
    simp only [Option.map_some]
    split
    · next howner =>
      refine Or.inl ⟨fun h => ?_, rfl, rfl⟩
      obtain ⟨found, hfound, hown⟩ := h.owner
      rw [hrow] at hfound
      cases hfound
      exact howner.2 (hown howner.1)
    next howner =>
    split
    · next hname => exact Or.inl ⟨fun h => by simp [h.name] at hname, rfl, rfl⟩
    next hname =>
    split
    · next hcap => exact Or.inl ⟨fun h => by have := h.capacity; omega, rfl, rfl⟩
    next hcap =>
    simp only [run_bind]
    split
    · next hseats =>
      rw [run_getEnrolledCount] at hseats
      exact Or.inl ⟨fun h => by have := h.seats; omega, rfl, rfl⟩
    next hseats =>
    rw [run_getEnrolledCount] at hseats
    refine Or.inr ⟨⟨⟨row, hrow, fun hf => ?_⟩, by simpa using hname, by omega, by omega⟩, rfl, rfl⟩
    by_contra hne
    exact howner ⟨hf, hne⟩

/-- A course is updated by an administrator, by its owner or by a student, and never below
the active registrations it has. -/
theorem run_updateCourse (now : Int) (course : Course) (requester : User) (conn : Conn) :
    ((conn.run now (CourseService.updateCourse course requester)).1.success = false ∧
      (conn.run now (CourseService.updateCourse course requester)).2 = conn) ∨
    ((conn.run now (CourseService.updateCourse course requester)).1.success = true ∧
      (∃ row, conn.db.findCourse course.id = some row ∧
        (requester.role = .faculty → row.facultyId.getD 0 = requester.id)) ∧
      (conn.db.active course.id : Int) ≤ course.capacity ∧
      (conn.run now (CourseService.updateCourse course requester)).2 =
        (conn.write now (.updateCourse course.courseName course.credits course.facultyId
          course.capacity course.schedule course.id)).2) := by
  obtain ⟨-, hno, hc⟩ | ⟨hok, hres, hc⟩ := updateCourse_cases now course requester conn
  · exact Or.inl ⟨hno, hc⟩
  · exact Or.inr ⟨by rw [hres], hok.owner, hok.seats, hc⟩

/-- Who can delete a course: anyone the service does not recognise as a faculty member who
owns another one. -/
theorem run_deleteCourse (now id : Int) (requester : User) (conn : Conn) :
    ((conn.run now (CourseService.deleteCourse id requester)).1.success = false ∧
      (conn.run now (CourseService.deleteCourse id requester)).2 = conn ∧
      requester.role ≠ .admin ∧
      ∀ row, conn.db.findCourse id = some row →
        requester.role = .faculty ∧ row.facultyId.getD 0 ≠ requester.id) ∨
    ((conn.run now (CourseService.deleteCourse id requester)).1.success = true ∧
      (conn.run now (CourseService.deleteCourse id requester)).2 =
        (conn.write now (.deleteCourse id)).2 ∧
      (requester.role = .admin ∨ ∃ row, conn.db.findCourse id = some row ∧
        (requester.role = .faculty → row.facultyId.getD 0 = requester.id))) := by
  have hremove : ∀ conn : Conn, conn.run now (CourseService.deleteCourse.remove id) =
      ({ success := true, courseId := id }, (conn.write now (.deleteCourse id)).2) := fun _ => rfl
  unfold CourseService.deleteCourse
  split
  · next hadmin =>
    simp only [Prog.bind_eq, run_bind, run_courseById]
    cases hrow : conn.db.findCourse id with
    | none => exact Or.inl ⟨rfl, rfl, hadmin, by simp⟩
    | some row =>
      simp only [Option.map_some]
      split
      · next howner =>
        refine Or.inl ⟨rfl, rfl, hadmin, ?_⟩
        rintro _ ⟨⟩
        exact howner
      · next howner =>
        rw [hremove]
        refine Or.inr ⟨rfl, rfl, Or.inr ⟨row, rfl, fun hf => ?_⟩⟩
        by_contra hne
        exact howner ⟨hf, hne⟩
  · next hadmin =>
    rw [hremove]
    exact Or.inr ⟨rfl, rfl, Or.inl (not_not.mp hadmin)⟩

end Conn

end AcademiaCr.Backend
