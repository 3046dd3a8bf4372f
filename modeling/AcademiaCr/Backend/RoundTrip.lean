import AcademiaCr.Backend.CourseResults
import AcademiaCr.Backend.Selections

/-!
# Round trips

A record that `create` stores and a lookup reads back passes through C strings: each text is
cut at its first NUL character. Numbers, flags and roles come back as they were. Names that
differ after a NUL character only are the same name for the table.

## Main definitions

- `User.stored`, `Course.StoredAs`: what is read back
- `UsersKept`, `CoursesKept`: two new records are created and found as they were
- `roundTrip_iff`: they are if no text contains a NUL character
-/

namespace AcademiaCr.Backend

/-! ## Texts -/

theorem bindText_nulFree (text : String) : NulFree (bindText text) := by
  intro hmem
  rw [bindText, String.toList_ofList] at hmem
  simpa using List.mem_takeWhile_imp hmem

theorem bindText_eq_self_iff {text : String} : bindText text = text ↔ NulFree text :=
  ⟨fun h => h ▸ bindText_nulFree text, bindText_of_nulFree⟩

/-! ## Users -/

/-- The texts of the user contain no NUL character. -/
structure User.NulFree (user : User) : Prop where
  username : Backend.NulFree user.username
  passwordHash : Backend.NulFree user.passwordHash
  name : Backend.NulFree user.name
  email : Backend.NulFree user.email

namespace User

/-- The row that an insertion adds. -/
def newRow (user : User) (id : Int) : UserRow where
  id := id
  username := bindText user.username
  passwordHash := bindText user.passwordHash
  role := roleToString user.role
  name := bindText user.name
  email := bindText user.email
  active := flag user.active

/-- The record that is read back from the row. -/
def stored (user : User) (id : Int) : User where
  id := id
  username := bindText user.username
  passwordHash := bindText user.passwordHash
  role := user.role
  name := bindText user.name
  email := bindText user.email
  active := user.active

theorem rowToUser_newRow (user : User) (id : Int) :
    rowToUser (user.newRow id) = .ok (user.stored id) := by
  have hactive : (decide (flag user.active ≠ 0)) = user.active := by cases user.active <;> rfl
  simp only [rowToUser, newRow, stringToRole_roleToString]
  show Except.ok { user.stored id with active := decide (flag user.active ≠ 0) } =
    Except.ok (user.stored id)
  rw [hactive]
  rfl

/-- Roles and flags survive, so the texts decide. -/
theorem stored_eq_iff {user : User} {id : Int} :
    user.stored id = { user with id } ↔ user.NulFree := by
  simp only [stored, User.mk.injEq, true_and, and_true, bindText_eq_self_iff]
  exact ⟨fun ⟨husername, hhash, hname, hemail⟩ => ⟨husername, hhash, hname, hemail⟩,
    fun h => ⟨h.username, h.passwordHash, h.name, h.email⟩⟩

end User

theorem Db.insertGivenUser_of_new {db : Db} {user : User}
    (hnew : ∀ row ∈ db.users, row.username ≠ bindText user.username) :
    ∃ id, db.insertGivenUser user = some {
      db := { db with users := db.users ++ [user.newRow id], userSeq := id }
      changed := 1
      rowid := some id } := by
  have hfree : db.users.all (fun u => u.username ≠ bindText user.username) = true := by
    simpa using hnew
  have hrole : roleToString user.role ∈ ["admin", "faculty", "student"] := by
    cases user.role <;> decide
  exact ⟨_, if_pos ⟨hfree, hrole⟩⟩

namespace Conn

variable {now : Int} {conn : Conn}

/-- A user whose name is not taken is inserted under a new id. -/
theorem create_user (now : Int) (hv : conn.db.Valid) {user : User}
    (hnew : ∀ row ∈ conn.db.users, row.username ≠ bindText user.username) :
    ∃ id conn', conn.runExcept now (UserRepository.create user) = (.ok id, conn') ∧
      conn'.db.Valid ∧ conn'.db.users = conn.db.users ++ [user.newRow id] := by
  obtain ⟨id, hinsert⟩ := Db.insertGivenUser_of_new hnew
  refine ⟨id, { conn with
    db := { conn.db with users := conn.db.users ++ [user.newRow id], userSeq := id }
    changes := 1
    lastInsertRowid := id }, ?_, Db.valid_insertUser hv hinsert, rfl⟩
  rw [Db.insertGivenUser, flag] at hinsert
  simp only [UserRepository.create, runExcept_bind, runExcept_liftM, run_stepWrite, write,
    Write.apply, hinsert]
  rfl

/-- A user whose name is taken, as the table compares names, is refused. -/
theorem create_user_taken (now : Int) {user : User}
    (htaken : ∃ row ∈ conn.db.users, row.username = bindText user.username) :
    ∃ e, (conn.runExcept now (UserRepository.create user)).1 = .error e := by
  obtain ⟨row, hrow, hname⟩ := htaken
  have hnot : ¬ conn.db.users.all (fun u => u.username ≠ bindText user.username) = true := by
    rw [List.all_eq_true]
    intro h
    exact absurd hname (of_decide_eq_true (h row hrow))
  obtain ⟨e, conn', hrun, -⟩ | ⟨applied, -, -, ha, -⟩ := Endpoint.run_userCreate now user conn
  · exact ⟨e, by rw [hrun]⟩
  · rw [Db.insertGivenUser, Db.insertUser, if_neg fun h => hnot h.1] at ha
    cases ha

/-- The two lookups of a user by id and by name. -/
theorem find_user (now : Int) (hv : conn.db.Valid) {user : User} {id : Int}
    (hrow : user.newRow id ∈ conn.db.users) :
    conn.runExcept now (UserRepository.findById id) = (.ok (some (user.stored id)), conn) ∧
      conn.runExcept now (UserRepository.findByUsername user.username) =
        (.ok (some (user.stored id)), conn) := by
  have hid : conn.db.findUser id = some (user.newRow id) := Table.find?_key hv.userIds hrow
  have hname : conn.db.users.find? (·.username = bindText user.username) =
      some (user.newRow id) := Table.find?_key hv.usernames hrow
  constructor
  · simp only [UserRepository.findById, runExcept_bind, runExcept_liftM, run_select, Query.eval,
      hid, UserRepository.ofRow, UserRepository.ofRow.liftExcept, User.rowToUser_newRow]
    rfl
  · simp only [UserRepository.findByUsername, runExcept_bind, runExcept_liftM, run_select,
      Query.eval, hname, UserRepository.ofRow, UserRepository.ofRow.liftExcept,
      User.rowToUser_newRow]
    rfl

end Conn

/-- Both lookups find the user as given, under the id. -/
def User.FoundAs (now : Int) (conn : Conn) (user : User) (id : Int) : Prop :=
  (conn.runExcept now (UserRepository.findById id)).1 = .ok (some { user with id }) ∧
    (conn.runExcept now (UserRepository.findByUsername user.username)).1 =
      .ok (some { user with id })

/-- Two users with names that are new and different. -/
structure NewUsers (db : Db) (user other : User) : Prop where
  fresh : ∀ row ∈ db.users, row.username ≠ user.username
  otherFresh : ∀ row ∈ db.users, row.username ≠ other.username
  distinct : user.username ≠ other.username

/-- Both users are created and found as given, the first before and after the second. -/
def UsersKept (now : Int) (conn : Conn) (user other : User) : Prop :=
  ∃ id conn₁ id' conn₂, conn.runExcept now (UserRepository.create user) = (.ok id, conn₁) ∧
    user.FoundAs now conn₁ id ∧
    conn₁.runExcept now (UserRepository.create other) = (.ok id', conn₂) ∧
    user.FoundAs now conn₂ id ∧ other.FoundAs now conn₂ id'

section

variable {now : Int} {conn : Conn}

theorem foundAs_iff (now : Int) (hv : conn.db.Valid) {user : User} {id : Int}
    (hrow : user.newRow id ∈ conn.db.users) : user.FoundAs now conn id ↔ user.NulFree := by
  obtain ⟨hid, hname⟩ := Conn.find_user now hv hrow
  rw [User.FoundAs, hid, hname, Except.ok.injEq, Option.some_inj, User.stored_eq_iff, and_self]

/-- What `create` returned was inserted. -/
theorem row_of_create_user (hv : conn.db.Valid) {user : User} {id : Int} {conn' : Conn}
    (h : conn.runExcept now (UserRepository.create user) = (.ok id, conn')) :
    conn'.db.Valid ∧ conn'.db.users = conn.db.users ++ [user.newRow id] := by
  by_cases htaken : ∃ row ∈ conn.db.users, row.username = bindText user.username
  · obtain ⟨e, herror⟩ := Conn.create_user_taken now htaken
    rw [h] at herror
    cases herror
  · have hnew : ∀ row ∈ conn.db.users, row.username ≠ bindText user.username :=
      fun row hrow hname => htaken ⟨row, hrow, hname⟩
    obtain ⟨id', conn'', hrun, hrows⟩ := Conn.create_user now hv hnew
    rw [h] at hrun
    cases hrun
    exact hrows

theorem usersKept_iff (hv : conn.db.Valid) {user other : User}
    (hnew : NewUsers conn.db user other) :
    UsersKept now conn user other ↔ user.NulFree ∧ other.NulFree := by
  constructor
  · intro ⟨id, conn₁, id', conn₂, hcreate, hfound, hcreate', _, hfound'⟩
    obtain ⟨hv₁, hrows⟩ := row_of_create_user hv hcreate
    obtain ⟨hv₂, hrows'⟩ := row_of_create_user hv₁ hcreate'
    exact ⟨(foundAs_iff now hv₁ (by simp [hrows])).mp hfound,
      (foundAs_iff now hv₂ (by simp [hrows'])).mp hfound'⟩
  · intro ⟨huser, hother⟩
    have hfresh : ∀ row ∈ conn.db.users, row.username ≠ bindText user.username := by
      rw [bindText_of_nulFree huser.username]
      exact hnew.fresh
    obtain ⟨id, conn₁, hcreate, hv₁, hrows⟩ := Conn.create_user now hv hfresh
    have hfresh' : ∀ row ∈ conn₁.db.users, row.username ≠ bindText other.username := by
      rw [bindText_of_nulFree hother.username]
      intro row hrow
      rw [hrows] at hrow
      obtain hold | hadded := List.mem_append.mp hrow
      · exact hnew.otherFresh row hold
      · rw [List.mem_singleton.mp hadded]
        show bindText user.username ≠ other.username
        rw [bindText_of_nulFree huser.username]
        exact hnew.distinct
    obtain ⟨id', conn₂, hcreate', hv₂, hrows'⟩ := Conn.create_user now hv₁ hfresh'
    exact ⟨id, conn₁, id', conn₂, hcreate, (foundAs_iff now hv₁ (by simp [hrows])).mpr huser,
      hcreate', (foundAs_iff now hv₂ (by simp [hrows', hrows])).mpr huser,
      (foundAs_iff now hv₂ (by simp [hrows'])).mpr hother⟩

end

/-! ## Courses -/

/-- The record found has the stored fields of the course; the name of the owner and the
number of registrations come from elsewhere. -/
def Course.FoundAs (now : Int) (conn : Conn) (course : Course) (id : Int) : Prop :=
  ∃ facultyName enrolledCount,
    (conn.run now (CourseRepository.findById id)).1 =
        some { course with id, facultyName, enrolledCount } ∧
      (conn.run now (CourseRepository.findByCode course.courseCode)).1 =
        some { course with id, facultyName, enrolledCount }

/-- Two courses with codes that are new and different, existing owners and seats. -/
structure NewCourses (db : Db) (course other : Course) : Prop where
  fresh : ∀ row ∈ db.courses, row.courseCode ≠ course.courseCode
  otherFresh : ∀ row ∈ db.courses, row.courseCode ≠ other.courseCode
  distinct : course.courseCode ≠ other.courseCode
  owners : db.userExists course.facultyId = true ∧ db.userExists other.facultyId = true
  capacities : 0 < course.capacity ∧ 0 < other.capacity

/-- Both courses are created and found as given, the first before and after the second. -/
def CoursesKept (now : Int) (conn : Conn) (course other : Course) : Prop :=
  ∃ id conn₁ id' conn₂, conn.runExcept now (CourseRepository.create course) = (.ok id, conn₁) ∧
    course.FoundAs now conn₁ id ∧
    conn₁.runExcept now (CourseRepository.create other) = (.ok id', conn₂) ∧
    course.FoundAs now conn₂ id ∧ other.FoundAs now conn₂ id'

section

variable {now : Int} {conn : Conn}

theorem course_newRow (db : Db) (course : Course) (id : Int) :
    ∃ facultyName enrolledCount, db.course (course.newRow id) =
      { course with id, facultyName, enrolledCount
                    courseCode := bindText course.courseCode
                    courseName := bindText course.courseName
                    schedule := bindText course.schedule } := ⟨_, _, rfl⟩

theorem courseFoundAs_iff (now : Int) (hv : conn.db.Valid) {course : Course} {id : Int}
    (hrow : course.newRow id ∈ conn.db.courses) :
    course.FoundAs now conn id ↔ course.NulFree := by
  have hid : conn.db.findCourse id = some (course.newRow id) := Table.find?_key hv.courseIds hrow
  have hcode : conn.db.courses.find? (·.courseCode = bindText course.courseCode) =
      some (course.newRow id) := Table.find?_key hv.courseCodes hrow
  have hfind : (conn.run now (CourseRepository.findById id)).1 =
      some (conn.db.course (course.newRow id)) := by
    rw [Conn.run_courseById, hid]
    rfl
  obtain ⟨facultyName, enrolledCount, hstored⟩ := course_newRow conn.db course id
  rw [Course.FoundAs, hfind, Conn.run_findByCode, hcode, Option.map_some, hstored]
  constructor
  · intro ⟨_, _, heq, _⟩
    simp only [Option.some_inj, Course.mk.injEq, bindText_eq_self_iff] at heq
    exact ⟨heq.2.1, heq.2.2.1, heq.2.2.2.2.2.2.2.2⟩
  · intro h
    refine ⟨facultyName, enrolledCount, ?_⟩
    rw [bindText_of_nulFree h.code, bindText_of_nulFree h.name, bindText_of_nulFree h.schedule]
    exact ⟨rfl, rfl⟩

/-- A course whose code is not taken is inserted under a new id. -/
theorem create_course (now : Int) (hv : conn.db.Valid) {course : Course}
    (hnew : ∀ row ∈ conn.db.courses, row.courseCode ≠ bindText course.courseCode)
    (hcap : 0 < course.capacity) (howner : conn.db.userExists course.facultyId = true) :
    ∃ id conn', conn.runExcept now (CourseRepository.create course) = (.ok id, conn') ∧
      conn'.db.Valid ∧ conn'.db.users = conn.db.users ∧
      conn'.db.courses = conn.db.courses ++ [course.newRow id] := by
  have hfree : conn.db.courses.all (fun c => c.courseCode ≠ bindText course.courseCode) = true := by
    simpa using hnew
  have hinsert : ∃ id, conn.db.insertGiven course = some {
      db := { conn.db with courses := conn.db.courses ++ [course.newRow id], courseSeq := id }
      changed := 1
      rowid := some id } := ⟨_, if_pos ⟨hfree, hcap, howner⟩⟩
  obtain ⟨id, hinsert⟩ := hinsert
  refine ⟨id, { conn with
    db := { conn.db with courses := conn.db.courses ++ [course.newRow id], courseSeq := id }
    changes := 1
    lastInsertRowid := id }, ?_, Db.valid_insertCourse hv hinsert, rfl, rfl⟩
  rw [Db.insertGiven] at hinsert
  simp only [CourseRepository.create, Conn.runExcept_bind, Conn.runExcept_liftM,
    Conn.run_stepWrite, Conn.write, Write.apply, hinsert]
  rfl

theorem row_of_create_course (hv : conn.db.Valid) {course : Course} {id : Int} {conn' : Conn}
    (h : conn.runExcept now (CourseRepository.create course) = (.ok id, conn')) :
    conn'.db.Valid ∧ conn'.db.courses = conn.db.courses ++ [course.newRow id] := by
  obtain ⟨e, herror, -⟩ | ⟨applied, ha, hid, hdb⟩ := Conn.run_courseCreate now course conn
  · rw [h] at herror
    cases herror
  · rw [h] at hid hdb
    obtain ⟨id', -, hrowid, happlied⟩ := Db.insertGiven_eq_some ha
    rw [hrowid] at hid
    cases hid
    dsimp only at hdb
    rw [hdb]
    exact ⟨Db.valid_insertCourse hv ha, by rw [happlied]; rfl⟩

theorem coursesKept_iff (hv : conn.db.Valid) {course other : Course}
    (hnew : NewCourses conn.db course other) :
    CoursesKept now conn course other ↔ course.NulFree ∧ other.NulFree := by
  constructor
  · intro ⟨id, conn₁, id', conn₂, hcreate, hfound, hcreate', _, hfound'⟩
    obtain ⟨hv₁, hrows⟩ := row_of_create_course hv hcreate
    obtain ⟨hv₂, hrows'⟩ := row_of_create_course hv₁ hcreate'
    exact ⟨(courseFoundAs_iff now hv₁ (by simp [hrows])).mp hfound,
      (courseFoundAs_iff now hv₂ (by simp [hrows'])).mp hfound'⟩
  · intro ⟨hcourse, hother⟩
    have hfresh : ∀ row ∈ conn.db.courses, row.courseCode ≠ bindText course.courseCode := by
      rw [bindText_of_nulFree hcourse.code]
      exact hnew.fresh
    obtain ⟨id, conn₁, hcreate, hv₁, husers, hrows⟩ :=
      create_course now hv hfresh hnew.capacities.1 hnew.owners.1
    have hfresh' : ∀ row ∈ conn₁.db.courses, row.courseCode ≠ bindText other.courseCode := by
      rw [bindText_of_nulFree hother.code]
      intro row hrow
      rw [hrows] at hrow
      obtain hold | hadded := List.mem_append.mp hrow
      · exact hnew.otherFresh row hold
      · rw [List.mem_singleton.mp hadded]
        show bindText course.courseCode ≠ other.courseCode
        rw [bindText_of_nulFree hcourse.code]
        exact hnew.distinct
    have howner : conn₁.db.userExists other.facultyId = true := by
      rw [Db.userExists, husers]
      exact hnew.owners.2
    obtain ⟨id', conn₂, hcreate', hv₂, -, hrows'⟩ :=
      create_course now hv₁ hfresh' hnew.capacities.2 howner
    exact ⟨id, conn₁, id', conn₂, hcreate,
      (courseFoundAs_iff now hv₁ (by simp [hrows])).mpr hcourse, hcreate',
      (courseFoundAs_iff now hv₂ (by simp [hrows', hrows])).mpr hcourse,
      (courseFoundAs_iff now hv₂ (by simp [hrows'])).mpr hother⟩

end

/-! ## Both tables -/

/-- New records are kept, and two of them are kept apart, if and only if none of their texts
contains a NUL character. -/
theorem roundTrip_iff {conn : Conn} (hv : conn.db.Valid) (now : Int) {user user' : User}
    (husers : NewUsers conn.db user user') {course course' : Course}
    (hcourses : NewCourses conn.db course course') :
    (UsersKept now conn user user' ∧ CoursesKept now conn course course') ↔
      (user.NulFree ∧ user'.NulFree) ∧ course.NulFree ∧ course'.NulFree :=
  and_congr (usersKept_iff hv husers) (coursesKept_iff hv hcourses)

/-- A database with one faculty member. -/
def oneFaculty : Conn where
  db := { users := [⟨1, "dr.smith", "", "faculty", "Dr. Alice Smith", "", 1⟩], userSeq := 1 }

theorem oneFaculty_valid : oneFaculty.db.Valid := by
  constructor <;> simp [oneFaculty]

/-- A course with the given code. -/
def courseCoded (courseCode : String) : Course where
  courseCode := courseCode
  courseName := "Operating Systems"
  credits := 4
  facultyId := 1
  capacity := 40

theorem newCourses_oneFaculty {code code' : String} (h : code ≠ code') :
    NewCourses oneFaculty.db (courseCoded code) (courseCoded code') where
  fresh _ hrow := absurd hrow List.not_mem_nil
  otherFresh _ hrow := absurd hrow List.not_mem_nil
  distinct := h
  owners := ⟨rfl, rfl⟩
  capacities := ⟨by simp [courseCoded], by simp [courseCoded]⟩

/-- A student with the given name. -/
def studentNamed (username : String) : User := { username, name := "John Doe" }

theorem newUsers_oneFaculty {name name' : String} (h : "dr.smith" ≠ name)
    (h' : "dr.smith" ≠ name') (hne : name ≠ name') :
    NewUsers oneFaculty.db (studentNamed name) (studentNamed name') where
  fresh row hrow := by rwa [List.mem_singleton.mp hrow]
  otherFresh row hrow := by rwa [List.mem_singleton.mp hrow]
  distinct := hne

theorem plain_records_kept : UsersKept 0 oneFaculty (studentNamed "john") (studentNamed "jane") ∧
    CoursesKept 0 oneFaculty (courseCoded "CS301") (courseCoded "CS302") :=
  (roundTrip_iff oneFaculty_valid 0
    (newUsers_oneFaculty (by decide) (by decide) (by decide))
    (newCourses_oneFaculty (by decide))).mpr
      ⟨⟨⟨by decide, by decide, by decide, by decide⟩, ⟨by decide, by decide, by decide, by decide⟩⟩,
        ⟨by decide, by decide, by decide⟩, ⟨by decide, by decide, by decide⟩⟩

/-- The names `john` and `john` followed by a NUL character differ, and collide. -/
theorem nul_name_collides : ¬ ∀ (now : Int) (conn : Conn) (user user' : User)
    (course course' : Course), conn.db.Valid → NewUsers conn.db user user' →
    NewCourses conn.db course course' →
    UsersKept now conn user user' ∧ CoursesKept now conn course course' := by
  intro h
  have hnew : NewUsers oneFaculty.db (studentNamed "john") (studentNamed "john\x00") :=
    newUsers_oneFaculty (by decide) (by decide) (by decide)
  have hkept := (h 0 oneFaculty _ _ _ _ oneFaculty_valid hnew
    (newCourses_oneFaculty (by decide : "CS301" ≠ "CS302"))).1
  have hname := ((usersKept_iff oneFaculty_valid hnew).mp hkept).2.username
  exact absurd hname (by decide)

end AcademiaCr.Backend
