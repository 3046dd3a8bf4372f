import Mathlib.Data.List.TakeWhile
import AcademiaCr.Backend.CourseValidity

/-!
# What the course services report

Whether the result of a service agrees with what it did to the tables. `create_course` looks
at the outcome of its statement, the other two do not.

## Main definitions

- `CourseCall`: the calls of the services, `CourseCall.Allowed`: by whom they are for
- `CourseCall.Truthful`: the result agrees with the tables
- `CourseCall.Reportable`: an owner who is a user, a course that is there
- `truthful_iff`: the calls with truthful results
-/

namespace AcademiaCr.Backend

open Resumption Transition

/-! ## Text without NUL characters -/

def NulFree (text : String) : Prop := '\x00' ∉ text.toList

instance (text : String) : Decidable (NulFree text) := inferInstanceAs (Decidable (¬ _))

theorem bindText_of_nulFree {text : String} (h : NulFree text) : bindText text = text := by
  have hall : text.toList.takeWhile (· ≠ '\x00') = text.toList := by
    rw [List.takeWhile_eq_self_iff]
    rintro c hc
    simp only [ne_eq, decide_eq_true_eq]
    rintro rfl
    exact h hc
  rw [bindText, hall, String.ofList_toList]

structure Course.NulFree (course : Course) : Prop where
  code : Backend.NulFree course.courseCode
  name : Backend.NulFree course.courseName
  schedule : Backend.NulFree course.schedule

/-- The requests whose course, if they carry one, has texts without NUL characters. -/
def Endpoint.NulFree : Endpoint → Prop
  | .postCourses (some json) | .putCourse _ (some json) =>
    ∀ course, Course.fromJson json = .ok course → course.NulFree
  | _ => True

/-- The states that runs with such requests reach. -/
def ReachableByText (s : Api) : Prop := ∃ seed clock history, ApiRun seed clock history s ∧
  ∀ e ∈ history, ∀ authHeader request, e.label.1 = .request authHeader request → request.NulFree

theorem ReachableByText.reachable {s : Api} (h : ReachableByText s) : Reachable s := by
  obtain ⟨seed, clock, history, hr, -⟩ := h
  exact ⟨seed, clock, history, hr⟩

/-- A non-empty text without NUL characters is stored as it is. -/
theorem bindText_ne_empty {text : String} (hne : text.isEmpty = false) (h : NulFree text) :
    bindText text ≠ "" := by
  rw [bindText_of_nulFree h]
  rintro rfl
  cases hne

/-- A name passes the checks only if it is not empty. -/
theorem writesNames_of_nulFree {db : Db} (user : User) {request : Endpoint}
    (h : request.NulFree) : request.WritesColumns (·.2.1 ≠ "") db user := by
  cases request with
  | postCourses body =>
    cases body with
    | none => trivial
    | some json =>
      intro course hcourse hok _
      have hname := hok.name
      rw [ownedBy_courseName] at hname
      simp only [CourseRow.columns, Course.newRow, ownedBy_courseName]
      exact bindText_ne_empty hname (h course hcourse).name
  | putCourse id body =>
    cases body with
    | none => trivial
    | some json =>
      intro course hcourse hok _ row _
      exact bindText_ne_empty hok.name (h course hcourse).name
  | postUsers | putUser | deleteUser | deleteCourse | postRegister | deleteRegister => trivial

/-- Every course of such a state has a name. -/
theorem ReachableByText.named {s : Api} (h : ReachableByText s) :
    ∀ c ∈ s.conn.db.courses, c.courseName ≠ "" := by
  obtain ⟨seed, clock, history, hr, hnul⟩ := h
  refine (hr.invariant (I := fun s => Sound s.conn ∧ s.conn.db.Columns (·.2.1 ≠ ""))
    (A := fun e => ∀ authHeader request, e.label.1 = .request authHeader request →
      request.NulFree) ⟨startup_sound seed, fun c hc => (startup_wellFormed seed c hc).name⟩ ?_
    hnul).2
  rintro s call s' ⟨hs, hnames⟩ hstep hok
  rw [(Api.step_cases hstep).2.1]
  exact ⟨hs.call call.1, call_columns hs.idle hs.valid hnames
    fun authHeader request hcall user _ _ =>
    writesNames_of_nulFree user (hok authHeader request hcall)⟩

/-! ## Calls -/

inductive CourseCall where
  | create (course : Course) (requester : User)
  | update (course : Course) (requester : User)
  | delete (id : Int) (requester : User)

namespace CourseCall

def run (now : Int) (conn : Conn) : CourseCall → CourseResult × Conn
  | create course requester => conn.run now (CourseService.createCourse course requester)
  | update course requester => conn.run now (CourseService.updateCourse course requester)
  | delete id requester => conn.run now (CourseService.deleteCourse id requester)

/-- The requester is an administrator, or a faculty member who creates a course or owns the
course, if it exists. -/
def Allowed (db : Db) : CourseCall → Prop
  | create _ requester => requester.role = .admin ∨ requester.role = .faculty
  | update { id, .. } requester | delete id requester =>
    requester.role = .admin ∨ (requester.role = .faculty ∧
      ∀ row, db.findCourse id = some row → row.facultyId = some requester.id)

/-- The texts of the course contain no NUL character. -/
def NulFree : CourseCall → Prop
  | create course _ | update course _ => course.NulFree
  | delete _ _ => True

end CourseCall

/-- The columns that an update sets, as given. -/
structure CourseRow.Stores (row : CourseRow) (course : Course) : Prop where
  name : row.courseName = course.courseName
  credits : row.credits = course.credits
  owner : row.facultyId = some course.facultyId
  capacity : row.capacity = course.capacity
  schedule : row.schedule = course.schedule

namespace CourseCall

/-- What the result claims has happened to the tables. -/
def Done (db : Db) (result : CourseResult) (db' : Db) : CourseCall → Prop
  | create course _ => (∀ c ∈ db.courses, c.id ≠ result.courseId) ∧
      ∃ row, row.id = result.courseId ∧ row.courseCode = course.courseCode ∧ row.Stores course ∧
        db'.courses = db.courses ++ [row]
  | update course _ => ∃ row ∈ db'.courses, row.id = course.id ∧ row.Stores course
  | delete id _ => db.courseExists id = true ∧ db'.courseExists id = false ∧
      ∀ r ∈ db'.registrations, r.courseId ≠ id

/-- Success is reported if and only if it has happened, and a failure changes nothing. -/
def Truthful (now : Int) (conn : Conn) (call : CourseCall) : Prop :=
  let outcome := call.run now conn
  (outcome.1.success = true ↔ call.Done conn.db outcome.1 outcome.2.db) ∧
    (outcome.1.success = false → outcome.2.db = conn.db)

/-- An update that passes the checks names an owner who is a user, and an administrator
deletes a course that is there. -/
def Reportable (db : Db) : CourseCall → Prop
  | create _ _ => True
  | update course requester => Updatable db course requester →
      db.userExists course.facultyId = true
  | delete id requester => requester.role = .admin → db.courseExists id = true

section

variable {now : Int} {conn : Conn}

theorem overwrite_stores {course : Course} (h : course.NulFree) (row : CourseRow) :
    (course.overwrite row).Stores course where
  name := bindText_of_nulFree h.name
  credits := rfl
  owner := rfl
  capacity := rfl
  schedule := bindText_of_nulFree h.schedule

/-! ## The three services -/

theorem truthful_create {course : Course} (h : course.NulFree) (requester : User) :
    (create course requester).Truthful now conn := by
  rcases Conn.createCourse_cases now course requester conn with
    ⟨-, hno, hdb⟩ | ⟨-, applied, ha, hres, hdb⟩
  · refine ⟨?_, fun _ => hdb⟩
    constructor
    · intro hyes
      exact absurd (hno.symm.trans hyes) Bool.false_ne_true
    · rintro ⟨-, row, -, -, -, hcourses⟩
      -- no row was added
      have hlength := congrArg List.length (hdb ▸ hcourses : conn.db.courses = _)
      simp at hlength
  · obtain ⟨id, hfresh, hrowid, happlied⟩ := Db.insertGiven_eq_some ha
    refine ⟨⟨fun _ => ?_, fun _ => congrArg CourseResult.success hres⟩, fun hno => ?_⟩
    · have hid : (conn.run now (CourseService.createCourse course requester)).1.courseId = id := by
        rw [hres, hrowid]
        rfl
      simp only [Done, run, hid, hdb, happlied]
      exact ⟨hfresh, course.newRow id, rfl, bindText_of_nulFree h.code,
        ⟨bindText_of_nulFree h.name, rfl, rfl, rfl, bindText_of_nulFree h.schedule⟩, rfl⟩
    · have hyes : ((create course requester).run now conn).1.success = true :=
        congrArg CourseResult.success hres
      rw [hyes] at hno
      cases hno

/-- A course that stores what the update gives passes the checks of the update. -/
theorem updatable_of_stores (hs : Sound conn) (hnames : ∀ c ∈ conn.db.courses, c.courseName ≠ "")
    {course : Course} {requester : User} (hallowed : (update course requester).Allowed conn.db)
    {row : CourseRow} (hrow : row ∈ conn.db.courses) (hid : row.id = course.id)
    (hstores : row.Stores course) : Updatable conn.db course requester := by
  have hfind : conn.db.findCourse course.id = some row := by
    rw [Db.findCourse, ← hid]
    exact Table.find?_key hs.valid.courseIds hrow
  refine ⟨⟨row, hfind, fun hf => ?_⟩, ?_, ?_, ?_⟩
  · obtain hadmin | ⟨-, howner⟩ := hallowed
    · rw [hf] at hadmin; cases hadmin
    · rw [howner row hfind]
      rfl
  · rw [← hstores.name]
    simpa using hnames row hrow
  · rw [← hstores.capacity]
    exact hs.valid.capacity row hrow
  · rw [← hstores.capacity, ← hid]
    exact hs.seats row hrow

theorem truthful_update_iff (hs : Sound conn)
    (hnames : ∀ c ∈ conn.db.courses, c.courseName ≠ "") {course : Course} (h : course.NulFree)
    {requester : User} (hallowed : (update course requester).Allowed conn.db) :
    (update course requester).Truthful now conn ↔
      (update course requester).Reportable conn.db := by
  rcases Conn.updateCourse_cases now course requester conn with
    ⟨hno, hfail, hconn⟩ | ⟨hok, hres, hconn⟩
  · -- refused: nothing changes, and the course does not store the values already
    refine ⟨fun _ hok => absurd hok hno, fun _ => ⟨?_, fun _ => congrArg Conn.db hconn⟩⟩
    constructor
    · intro hyes
      exact absurd (hfail.symm.trans hyes) Bool.false_ne_true
    · rintro ⟨row, hrow, hid, hstores⟩
      simp only [run, hconn] at hrow
      exact absurd (updatable_of_stores hs hnames hallowed hrow hid hstores) hno
  · have hsucc : ((update course requester).run now conn).1.success = true :=
      congrArg CourseResult.success hres
    have hdb : ((update course requester).run now conn).2.db =
        (updateGiven course).effect now conn.db := by
      rw [← Conn.write_db]
      exact congrArg Conn.db hconn
    obtain ⟨row, hrow, -⟩ := hok.owner
    have hmem := Db.findCourse_mem hrow
    have hid := Db.findCourse_id hrow
    constructor
    · rintro ⟨htrue, -⟩ -
      by_contra howner
      obtain ⟨row', hrow', -, hstores⟩ := htrue.mp hsucc
      rw [hdb, effect_updateGiven_of_noOwner now (Db.courseExists_iff.mpr ⟨row, hmem, hid⟩)
        (by simpa using howner)] at hrow'
      exact howner (Db.userExists_iff.mpr (hs.valid.owner row' hrow' _ hstores.owner))
    · intro howner
      refine ⟨⟨fun _ => ?_, fun _ => hsucc⟩, fun hno => ?_⟩
      · rw [Done, hdb, effect_updateGiven now hok.capacity (howner hok)]
        exact ⟨course.overwrite row, Table.mem_update.mpr ⟨row, hmem, by
          rw [if_pos (by simpa using hid)]⟩, hid, overwrite_stores h row⟩
      · rw [hsucc] at hno
        cases hno

theorem truthful_delete_iff {id : Int} {requester : User} :
    (delete id requester).Truthful now conn ↔ (delete id requester).Reportable conn.db := by
  have hgone : ∀ db : Db, ((Write.deleteCourse id).effect now db).courseExists id = false := by
    intro db
    simp [Write.effect, Write.apply, Db.deleteCourse, Db.courseExists]
  have hregs : conn.db.courseExists id = true →
      ∀ r ∈ ((Write.deleteCourse id).effect now conn.db).registrations, r.courseId ≠ id := by
    intro hc r hr
    simp only [Write.effect, Write.apply, Db.deleteCourse, hc, if_true, Option.map_some,
      Option.getD_some] at hr
    simpa using (List.mem_filter.mp hr).2
  rcases Conn.run_deleteCourse now id requester conn with
    ⟨hfail, hconn, hrole, hnot⟩ | ⟨hsucc, hconn, hwho⟩
  · refine ⟨fun _ hadmin => absurd hadmin hrole, fun _ => ⟨?_, fun _ => congrArg Conn.db hconn⟩⟩
    constructor
    · intro hyes
      exact absurd (hfail.symm.trans hyes) Bool.false_ne_true
    · rintro ⟨hc, hno, -⟩
      simp only [run, hconn] at hno
      rw [hc] at hno
      cases hno
  · have hdb : ((delete id requester).run now conn).2.db =
        (Write.deleteCourse id).effect now conn.db := by
      rw [← Conn.write_db]
      exact congrArg Conn.db hconn
    constructor
    · rintro ⟨htrue, -⟩ -
      exact (htrue.mp hsucc).1
    · intro hexists
      have hc : conn.db.courseExists id = true := by
        obtain hadmin | ⟨row, hrow, -⟩ := hwho
        · exact hexists hadmin
        · exact Db.courseExists_iff.mpr ⟨row, Db.findCourse_mem hrow, Db.findCourse_id hrow⟩
      refine ⟨⟨fun _ => ?_, fun _ => hsucc⟩, fun hno => ?_⟩
      · rw [Done, hdb]
        exact ⟨hc, hgone conn.db, hregs hc⟩
      · exact absurd (hsucc.symm.trans hno) (by decide)

end

end CourseCall

/-- In every reachable state an allowed call reports the truth unless it is an update that
passes the checks and names an owner who is no user, or an administrator's deletion of a
course that does not exist. -/
theorem truthful_iff {s : Api} (h : ReachableByText s) (now : Int) {call : CourseCall}
    (hallowed : call.Allowed s.conn.db) (hnul : call.NulFree) :
    call.Truthful now s.conn ↔ call.Reportable s.conn.db := by
  have hs := h.reachable.sound
  cases call with
  | create course requester =>
    exact ⟨fun _ => trivial, fun _ => CourseCall.truthful_create hnul requester⟩
  | update course requester => exact CourseCall.truthful_update_iff hs h.named hnul hallowed
  | delete id requester => exact CourseCall.truthful_delete_iff

theorem start_reachableByText (seed : Bool) (clock : Int) :
    ReachableByText (Api.start seed clock) := ⟨seed, clock, [], .start, by simp⟩

/-- The deletion of the course `CS301` is reported as it happens. -/
theorem truthful_deletion :
    (CourseCall.delete 1 systemAdministrator).Truthful 0 (Api.start true 0).conn :=
  (@truthful_iff _ (start_reachableByText true 0) 0 (.delete 1 systemAdministrator) (Or.inl rfl)
    trivial).mpr fun _ => by decide +kernel

/-- The course `CS301` with more seats and without an owner. -/
def withoutOwner : Course where
  id := 1
  courseCode := "CS301"
  courseName := "Operating Systems"
  credits := 4
  capacity := 60
  schedule := "Mon/Wed 10:00-11:30"

/-- The update is reported as a success and not carried out. -/
theorem withoutOwner_not_truthful : ¬ ∀ s : Api, ReachableByText s → ∀ now, ∀ call : CourseCall,
    call.Allowed s.conn.db → call.NulFree → call.Truthful now s.conn := by
  intro h
  have htruthful := (h _ (start_reachableByText true 0) 0
    (.update withoutOwner systemAdministrator) (Or.inl rfl)
    ⟨by decide, by decide, by decide⟩).1
  have hsucc : ((CourseCall.update withoutOwner systemAdministrator).run 0
      (Api.start true 0).conn).1.success = true := by decide +kernel
  have hkept : ∀ row ∈ ((CourseCall.update withoutOwner systemAdministrator).run 0
      (Api.start true 0).conn).2.db.courses, row.capacity ≠ 60 ∨ row.id ≠ 1 := by decide +kernel
  obtain ⟨row, hrow, hid, hstores⟩ := htruthful.mp hsucc
  obtain hcap | hne := hkept row hrow
  · exact hcap hstores.capacity
  · exact hne hid

end AcademiaCr.Backend
