import AcademiaCr.Backend.Atomicity

/-!
# Valid courses

The rule that `create_course` states: a course has a code, a name, at least one seat and
one to six credits. `update_course` leaves the credits unchecked, and a text that begins
with a NUL character is non-empty for the checks and empty in the table.

## Main definitions

- `CourseRow.WellFormed`: the rule
- `Endpoint.WritesWellFormed`: what a request hands to the table obeys the rule
- `wellFormed_iff`: the runs that keep the rule
-/

namespace AcademiaCr.Backend

open Resumption Transition

/-- A code, a name, a seat, and one to six credits. -/
structure CourseRow.WellFormed (c : CourseRow) : Prop where
  code : c.courseCode ≠ ""
  name : c.courseName ≠ ""
  capacity : 1 ≤ c.capacity
  credits : 1 ≤ c.credits ∧ c.credits ≤ 6

def Db.CoursesWellFormed (db : Db) : Prop := ∀ c ∈ db.courses, c.WellFormed

/-- A request that passes all checks of its route stores a name, on creation a code, and on
an update admissible credits. -/
def Endpoint.WritesWellFormed (db : Db) (user : User) : Endpoint → Prop
  | .postCourses (some json) => ∀ course, Course.fromJson json = .ok course →
      Creatable db (ownedBy user course) user →
      (db.insertGiven (ownedBy user course)).isSome = true →
      bindText course.courseCode ≠ "" ∧ bindText course.courseName ≠ ""
  | .putCourse id (some json) => ∀ course, Course.fromJson json = .ok course →
      Updatable db { course with id } user → db.userExists course.facultyId = true →
      bindText course.courseName ≠ "" ∧ 1 ≤ course.credits ∧ course.credits ≤ 6
  | _ => True

/-- The condition on one step of a run. -/
def WritesWellFormed (e : Event Api (ApiCall × Int)) : Prop :=
  ∀ authHeader request, e.label.1 = .request authHeader request →
    ∀ user, Authenticates e.label.2 e.before.conn authHeader user →
      user.role = .faculty ∨ user.role = .admin →
      request.WritesWellFormed e.before.conn.db user

/-! ## Columns

A property of the code, name, capacity and credits of every course is a matter of the two
statements that write them. -/

/-- The columns that only `create_course` and `update_course` write. -/
def CourseRow.columns (c : CourseRow) : String × String × Int × Int :=
  (c.courseCode, c.courseName, c.capacity, c.credits)

def Db.Columns (P : String × String × Int × Int → Prop) (db : Db) : Prop :=
  ∀ c ∈ db.courses, P c.columns

/-- A request that passes all checks of its route writes columns with the property. -/
def Endpoint.WritesColumns (P : String × String × Int × Int → Prop) (db : Db) (user : User) :
    Endpoint → Prop
  | .postCourses (some json) => ∀ course, Course.fromJson json = .ok course →
      Creatable db (ownedBy user course) user →
      (db.insertGiven (ownedBy user course)).isSome = true →
      P ((ownedBy user course).newRow 0).columns
  | .putCourse id (some json) => ∀ course, Course.fromJson json = .ok course →
      Updatable db { course with id } user → db.userExists course.facultyId = true →
      ∀ row, db.findCourse id = some row → P (({ course with id } : Course).overwrite row).columns
  | _ => True

/-- The statements that write none of these columns. -/
def Write.keepsColumns : Write → Prop
  | insertCourse _ _ _ _ _ _ => False
  | updateCourse _ _ _ _ _ _ => False
  | _ => True

theorem Write.columns_of_effect {now : Int} {db : Db} {w : Write} (hw : w.keepsColumns) :
    ∀ c ∈ (w.effect now db).courses, ∃ c₀ ∈ db.courses, c₀.columns = c.columns := by
  intro c hc
  cases w with
  | insertCourse | updateCourse => exact hw.elim
  | deleteCourse id => exact ⟨c, (List.mem_filter.mp hc).1, rfl⟩
  | deleteUser id =>
    simp only [effect, apply, Db.deleteUser] at hc
    dsimp only [Option.map_some, Option.getD_some] at hc
    split at hc
    · obtain ⟨c₀, hc₀, rfl⟩ := Table.mem_update.mp hc
      refine ⟨c₀, hc₀, ?_⟩
      split <;> rfl
    · exact ⟨c, hc, rfl⟩
  | insertRegistration s d =>
    refine ⟨c, ?_, rfl⟩
    simp only [effect, apply, Db.insertRegistration] at hc
    split at hc <;> exact hc
  | insertUser username hash role name email active =>
    refine ⟨c, ?_, rfl⟩
    simp only [effect, apply, Db.insertUser] at hc
    split at hc <;> exact hc
  | insertSession token userId =>
    refine ⟨c, ?_, rfl⟩
    simp only [effect, apply, Db.insertSession] at hc
    split at hc <;> exact hc
  | reactivateRegistration | dropRegistration | updateUser | updatePassword | deleteSession
  | cleanupSessions => exact ⟨c, hc, rfl⟩

section

variable {P : String × String × Int × Int → Prop} {db : Db}

theorem Db.Columns.effect {now : Int} (h : db.Columns P) {w : Write} (hw : w.keepsColumns) :
    (w.effect now db).Columns P := by
  intro c hc
  obtain ⟨c₀, hc₀, hcols⟩ := Write.columns_of_effect hw c hc
  rw [← hcols]
  exact h c₀ hc₀

theorem Db.Columns.of_onlyRegistrations {db' : Db} (h : db.Columns P)
    (hdb : Db.OnlyRegistrations db db') : db'.Columns P := by
  obtain ⟨rows, seq, rfl⟩ := hdb
  exact h

/-- An insertion keeps the property if and only if the new row has it. -/
theorem Db.Columns.insert (h : db.Columns P) {course : Course} {applied : Applied}
    (ha : db.insertGiven course = some applied) :
    applied.db.Columns P ↔ P (course.newRow 0).columns := by
  obtain ⟨id, -, -, hdb⟩ := Db.insertGiven_eq_some ha
  rw [hdb]
  constructor
  · exact fun hafter =>
          hafter (course.newRow id) (List.mem_append_right _ (List.mem_singleton_self _))
  · intro hnew c hc
    obtain hold | hadded := List.mem_append.mp hc
    · exact h c hold
    · rw [List.mem_singleton.mp hadded]
      exact hnew

/-- An update keeps the property if and only if the row that it writes, if any, has it. -/
theorem Db.Columns.update (hv : db.Valid) (h : db.Columns P) {now : Int} {course : Course}
    {requester : User} (hok : Updatable db course requester) :
    ((updateGiven course).effect now db).Columns P ↔ (db.userExists course.facultyId = true →
      ∀ row, db.findCourse course.id = some row → P (course.overwrite row).columns) := by
  obtain ⟨row, hrow, -⟩ := hok.owner
  have hmem := Db.findCourse_mem hrow
  have hid := Db.findCourse_id hrow
  cases howner : db.userExists course.facultyId with
  | false =>
    rw [effect_updateGiven_of_noOwner now (Db.courseExists_iff.mpr ⟨row, hmem, hid⟩) howner]
    exact ⟨fun _ hno => (Bool.false_ne_true hno).elim, fun _ => h⟩
  | true =>
    rw [effect_updateGiven now hok.capacity howner]
    constructor
    · rintro hafter - row' hrow'
      exact hafter (course.overwrite row') (Table.mem_update.mpr ⟨row', Db.findCourse_mem hrow',
        by rw [if_pos (by simpa using Db.findCourse_id hrow')]⟩)
    · intro hnew c hc
      obtain ⟨c₀, hc₀, rfl⟩ := Table.mem_update.mp hc
      split
      · next hid₀ =>
        have hsame : c₀ = row := Table.eq_of_key_eq hv.courseIds hc₀ hmem
          ((by simpa using hid₀ : c₀.id = course.id).trans hid.symm)
        rw [hsame]
        exact hnew rfl row hrow
      · exact h c₀ hc₀

end

/-! ## Requests -/

section

variable {P : String × String × Int × Int → Prop} {now : Int} {conn : Conn} {authHeader : String}

/-- A request keeps the property if what it writes has it. -/
theorem request_columns (hs : conn.saved = none) (hv : conn.db.Valid) (h : conn.db.Columns P)
    {request : Endpoint} (hok : ∀ user, Authenticates now conn authHeader user →
      user.role = .faculty ∨ user.role = .admin → request.WritesColumns P conn.db user) :
    (request.run now authHeader conn).2.db.Columns P := by
  rcases @Endpoint.outcome now _ authHeader hs hv request with
    ⟨-, hdb⟩ | ⟨user, hauth, -, heffect⟩ |
      ⟨-, -, id, json, row, name, email, active, e, -, -, -, -, hdb⟩
  · have hdb' : (request.run now authHeader conn).2.db = conn.db := hdb
    rwa [hdb']
  · generalize (request.run now authHeader conn).2.db = db at heffect
    cases request with
    | postUsers body =>
      obtain ⟨-, u, applied, ha, rfl⟩ := heffect
      have hinsert : applied.db = (Write.insertUser u.username u.passwordHash (roleToString u.role)
          u.name u.email (flag u.active)).effect now conn.db := by
        rw [Db.insertGivenUser] at ha
        simp [Write.effect, Write.apply, ha]
      rw [hinsert]
      exact h.effect trivial
    | putUser id body =>
      obtain ⟨-, json, row, name, email, active, password, -, -, -, -, rfl⟩ := heffect
      rw [Db.withPassword]
      split
      · exact h
      · exact @Db.Columns.effect _ (conn.db.rewriteUser name email active id) _ h _ trivial
    | deleteUser id =>
      obtain ⟨-, -, rfl⟩ := heffect
      exact h.effect trivial
    | postCourses body =>
      obtain ⟨hrole, json, course, rfl, hcourse, hcreatable, applied, ha, rfl⟩ := heffect
      exact (h.insert ha).mpr (hok user hauth hrole course hcourse hcreatable (by rw [ha]; rfl))
    | putCourse id body =>
      obtain ⟨hrole, json, course, rfl, hcourse, hupdatable, rfl⟩ := heffect
      exact (h.update hv hupdatable).mpr (hok user hauth hrole course hcourse hupdatable)
    | deleteCourse id =>
      cases heffect
      exact h.effect trivial
    | postRegister c =>
      obtain ⟨-, rfl⟩ := heffect
      exact h.of_onlyRegistrations (Db.register_onlyRegistrations _ _ _)
    | deleteRegister c =>
      obtain ⟨-, rfl⟩ := heffect
      exact h.of_onlyRegistrations (Db.drop_onlyRegistrations _ _ _)
  · rw [hdb]
    exact h

/-- A request that keeps the property writes columns that have it. -/
theorem writesColumns_of_after (hv : conn.db.Valid) (h : conn.db.Columns P) {request : Endpoint}
    (hafter : (request.run now authHeader conn).2.db.Columns P) {user : User}
    (hauth : Authenticates now conn authHeader user)
    (hrole : user.role = .faculty ∨ user.role = .admin) :
    request.WritesColumns P conn.db user := by
  cases request with
  | postCourses body =>
    cases body with
    | none => trivial
    | some json =>
      intro course hcourse hcreatable hsome
      rw [Endpoint.postCourses_conn hauth hrole hcourse] at hafter
      rcases Conn.createCourse_cases now (ownedBy user course) user conn with
        ⟨hno, -⟩ | ⟨-, applied, ha, -, hdb⟩
      · exact absurd ⟨hcreatable, hsome⟩ hno
      · rw [hdb] at hafter
        exact (h.insert ha).mp hafter
  | putCourse id body =>
    cases body with
    | none => trivial
    | some json =>
      intro course hcourse hupdatable
      rw [Endpoint.putCourse_conn hauth hrole id hcourse] at hafter
      rcases Conn.updateCourse_cases now { course with id } user conn with
        ⟨hno, -⟩ | ⟨-, -, hconn⟩
      · exact absurd hupdatable hno
      · rw [hconn, Conn.write_db] at hafter
        exact (h.update hv hupdatable).mp hafter
  | postUsers | putUser | deleteUser | deleteCourse | postRegister | deleteRegister => trivial

/-- A call keeps the property unless it is a request that writes columns without it. -/
theorem call_columns (hs : conn.saved = none) (hv : conn.db.Valid) (h : conn.db.Columns P)
    {call : ApiCall} (hok : ∀ authHeader request, call = .request authHeader request →
      ∀ user, Authenticates now conn authHeader user →
        user.role = .faculty ∨ user.role = .admin → request.WritesColumns P conn.db user) :
    (call.run now conn).db.Columns P := by
  refine ApiCall.run_within (I := fun c => c.db.Columns P) h (fun w conn hw hc => ?_)
    fun authHeader request hcall => request_columns hs hv h (hok authHeader request hcall)
  rw [Conn.write_db]
  exact hc.effect (by cases w <;> trivial)

end

/-! ## The rule as a property of the columns -/

def Rule (columns : String × String × Int × Int) : Prop :=
  columns.1 ≠ "" ∧ columns.2.1 ≠ "" ∧ 1 ≤ columns.2.2.1 ∧ 1 ≤ columns.2.2.2 ∧ columns.2.2.2 ≤ 6

theorem coursesWellFormed_iff {db : Db} : db.CoursesWellFormed ↔ db.Columns Rule := by
  refine forall₂_congr fun c _ => ?_
  exact ⟨fun h => ⟨h.code, h.name, h.capacity, h.credits.1, h.credits.2⟩,
    fun ⟨hcode, hname, hcap, hlo, hhi⟩ => ⟨hcode, hname, hcap, hlo, hhi⟩⟩

@[simp] theorem ownedBy_courseCode (user : User) (course : Course) :
    (ownedBy user course).courseCode = course.courseCode := by
  unfold ownedBy
  split <;> rfl

@[simp] theorem ownedBy_courseName (user : User) (course : Course) :
    (ownedBy user course).courseName = course.courseName := by
  unfold ownedBy
  split <;> rfl

/-- What the checks of the services do not cover is the condition. -/
theorem writesWellFormed_iff {db : Db} (h : db.CoursesWellFormed) (user : User)
    (request : Endpoint) :
    request.WritesWellFormed db user ↔ request.WritesColumns Rule db user := by
  cases request with
  | postCourses body =>
    cases body with
    | none => rfl
    | some json =>
      refine forall₄_congr fun course _ hok _ => ?_
      have hcap := hok.capacity
      have hcredits := hok.credits
      simp only [Rule, CourseRow.columns, Course.newRow, ownedBy_courseCode, ownedBy_courseName]
      exact ⟨fun ⟨hcode, hname⟩ => ⟨hcode, hname, by omega, by omega, by omega⟩,
        fun ⟨hcode, hname, _⟩ => ⟨hcode, hname⟩⟩
  | putCourse id body =>
    cases body with
    | none => rfl
    | some json =>
      refine forall₄_congr fun course _ hok _ => ?_
      obtain ⟨row, hrow, -⟩ := hok.owner
      have hcap : 0 < course.capacity := hok.capacity
      constructor
      · rintro ⟨hname, hcredits⟩ row' hrow'
        exact ⟨(h row' (Db.findCourse_mem hrow')).code, hname,
          by simp only [CourseRow.columns, Course.overwrite, Course.newRow]; omega, hcredits⟩
      · intro hnew
        obtain ⟨-, hname, -, hcredits⟩ := hnew row hrow
        exact ⟨hname, hcredits⟩
  | postUsers | putUser | deleteUser | deleteCourse | postRegister | deleteRegister => rfl

/-! ## Runs -/

/-- The seeded courses obey the rule. -/
theorem startup_wellFormed (seed : Bool) : (startup seed).db.CoursesWellFormed := by
  cases seed with
  | false => exact fun c hc => by cases hc
  | true =>
    have hseeded : ∀ c ∈ (startup true).db.courses, c.courseCode ≠ "" ∧ c.courseName ≠ "" ∧
        1 ≤ c.capacity ∧ 1 ≤ c.credits ∧ c.credits ≤ 6 := by decide +kernel
    intro c hc
    obtain ⟨hcode, hname, hcap, hcredits⟩ := hseeded c hc
    exact ⟨hcode, hname, hcap, hcredits⟩

section

variable {seed : Bool} {clock : Int} {history : List (Event Api (ApiCall × Int))} {s : Api}

/-- One step keeps the rule if and only if it meets the condition. -/
theorem step_wellFormed (hs : Reachable s) (h : s.conn.db.CoursesWellFormed) {s' : Api}
    {call : ApiCall × Int} (hstep : s.step call = some s') :
    s'.conn.db.CoursesWellFormed ↔ WritesWellFormed ⟨s, call, s'⟩ := by
  obtain ⟨-, hconn, -⟩ := Api.step_cases hstep
  have hcols := coursesWellFormed_iff.mp h
  rw [hconn, coursesWellFormed_iff]
  constructor
  · rintro hafter authHeader request hcall user hauth hrole
    dsimp only at hcall hauth ⊢
    rw [hcall] at hafter
    exact (writesWellFormed_iff h user request).mpr
      (writesColumns_of_after hs.sound.valid hcols hafter hauth hrole)
  · intro hok
    exact call_columns hs.sound.idle hs.sound.valid hcols fun authHeader request hcall user hauth
      hrole =>
      (writesWellFormed_iff h user request).mp (hok authHeader request hcall user hauth hrole)

/-- A run keeps the rule in all its states if and only if no accepted update writes credits
outside 1 to 6 and no accepted creation or update writes a code or a name that begins with
a NUL character. -/
theorem wellFormed_iff (hr : ApiRun seed clock history s) :
    (∀ t, Visited seed clock history t → t.conn.db.CoursesWellFormed) ↔
      ∀ e ∈ history, WritesWellFormed e := by
  induction hr with
  | start =>
    refine ⟨fun _ => by simp, fun _ t ht => ?_⟩
    obtain rfl | ⟨e, he, -⟩ := ht
    · exact startup_wellFormed seed
    · cases he
  | @snoc history s s' call hr hstep ih =>
    have hreach : Reachable s := ⟨seed, clock, history, hr⟩
    simp only [visited_cons, List.mem_cons, or_imp, forall_and, forall_eq]
    rw [ih]
    constructor
    · rintro ⟨hold, hafter⟩
      have h := ih.mpr hold s (ApiRun.visited hr)
      exact ⟨(step_wellFormed hreach h hstep).mp hafter, hold⟩
    · rintro ⟨hnew, hold⟩
      have h := ih.mpr hold s (ApiRun.visited hr)
      exact ⟨hold, (step_wellFormed hreach h hstep).mpr hnew⟩

end

/-- The administrator's update of the course `CS301` (course 1) to the given credits. -/
def setCredits (credits : Int) : Endpoint :=
  .putCourse 1 (some (.obj [("course_name", .str "Operating Systems"), ("credits", .int credits),
    ("faculty_id", .int 2), ("capacity", .int 40)]))

/-- The server after that update. -/
def afterUpdate (credits : Int) : Api :=
  ⟨(ApiCall.request "Bearer a11ce" (setCredits credits)).run 0 adminLoggedIn.conn, 0⟩

/-- The history that leads there. -/
def updateHistory (credits : Int) : List (Event Api (ApiCall × Int)) :=
  [⟨adminLoggedIn, (.request "Bearer a11ce" (setCredits credits), 0), afterUpdate credits⟩,
    ⟨Api.start true 0, (.login "admin" "admin123" "a11ce", 0), adminLoggedIn⟩]

theorem updateHistory_run (credits : Int) :
    ApiRun true 0 (updateHistory credits) (afterUpdate credits) :=
  (Run.start.snoc rfl).snoc rfl

/-- An update to five credits keeps the rule. -/
theorem wellFormed_fiveCredits : ApiRun true 0 (updateHistory 5) (afterUpdate 5) ∧
    ∀ t, Visited true 0 (updateHistory 5) t → t.conn.db.CoursesWellFormed := by
  refine ⟨updateHistory_run 5, (wellFormed_iff (updateHistory_run 5)).mpr fun e he => ?_⟩
  obtain rfl | he := List.mem_cons.mp he
  · rintro authHeader request hcall user - -
    cases hcall
    intro course hcourse _ _
    cases hcourse
    decide
  · rw [List.mem_singleton.mp he]
    rintro authHeader request hcall
    cases hcall

/-- The update to no credits is carried out. -/
theorem zeroCredits_stored : ¬ ∀ seed clock history s, ApiRun seed clock history s →
    s.conn.db.CoursesWellFormed := by
  intro h
  have hzero : ∃ c ∈ (afterUpdate 0).conn.db.courses, c.credits = 0 := by decide +kernel
  obtain ⟨c, hc, hcredits⟩ := hzero
  have hvalid := (h _ _ _ _ (updateHistory_run 0) c hc).credits
  omega

end AcademiaCr.Backend
