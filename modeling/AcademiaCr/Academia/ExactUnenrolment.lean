import AcademiaCr.Academia.Bounds
import AcademiaCr.Academia.Coverage

/-!
# Exactly when a student is unenrolled

`unenroll_course` edits the roster before it looks at the student. Since rosters are covered by
slots, that does no harm: whoever is on the roster lists the course as well. But it looks for the
course in all slots, and an empty slot holds the empty id, so that it reports success for it. And
a student id of `MAX_ID` bytes may meet an id without NUL: then the comparison runs on behind it.

## Main definitions

- `Course.Loses`: a course after it has lost a student
- `Tables.Lists`: the student has the course in a slot
- `Tables.Unenrolled`: the files after the student has been unenrolled
- `Tables.MatchesEmptySlot`: the empty id matches an empty slot
- `Tables.UnenrollsWithin`: the comparisons of the call stay within the arrays
- `unenrollsExactly_iff`: in every reachable state, when the call does what it is for
-/

namespace AcademiaCr.Academia

open CLang RecordFile Transition

/-- The student is taken off the roster, the others stay in order. Nothing else of the course
changes, nor the entries behind the roster. -/
structure Course.Loses (studentId : CString) (course course' : Course) : Prop where
  rest : course' = { course with
    enrolledStudents := course'.enrolledStudents
    enrolledCount := course'.enrolledCount }
  roster : course'.roster = course.roster.erase studentId
  count : course'.enrolledCount = course'.roster.length
  unused : course'.enrolledStudents.toList.drop course'.enrolledCount.toNat =
    course.enrolledStudents.toList.drop course'.enrolledCount.toNat

namespace Tables

/-- The first record of the student lists the course in a slot that is not empty. -/
def Lists (t : Tables) (studentId courseId : CString) : Prop :=
  ∃ student, t.studentRecords.find? (Student.hasId studentId) = some student ∧
    courseId ∈ student.listed

/-- The first slot with the course is cleared, the student is off the roster of the course, and
the rest of the files is as it was. -/
structure Unenrolled (t t' : Tables) (studentId courseId : CString) : Prop where
  students : ∃ students students', t.students = some students ∧ t'.students = some students' ∧
    ReplacesFirst (Student.hasId studentId)
      (fun student student' =>
        student' = { student with enrolledCourses := student'.enrolledCourses } ∧
        ReplacesFirst (entryIs courseId) (fun _ slot => slot = zeros)
          student.enrolledCourses.toList student'.enrolledCourses.toList)
      students students'
  courses : ∃ courses courses', t.courses = some courses ∧ t'.courses = some courses' ∧
    ReplacesFirst (Course.hasId courseId) (Course.Loses studentId) courses courses'

/-- Both files are found, and the student has an empty slot, which the empty id matches. -/
def MatchesEmptySlot (t : Tables) (studentId courseId : CString) : Prop :=
  courseId = .empty ∧ t.courses.isSome = true ∧
    ∃ student, t.studentRecords.find? (Student.hasId studentId) = some student ∧
      student.holds .empty = true

/-- The comparisons with the entries of the roster, and then with the ids of the students, stay
within the arrays. -/
def UnenrollsWithin (t : Tables) (studentId courseId : CString) : Prop :=
  t.courses ≠ none →
    (∀ course, t.courseRecords.find? (Course.hasId courseId) = some course →
      ∀ entry ∈ course.entries, ¬ entry.Overrun studentId) ∧
    ∀ student ∈ t.studentRecords, ¬ student.id.Overrun studentId

end Tables

/-! ## The sections -/

section Sections

variable {studentId courseId : CString}

/-- The shift loop leaves the entries behind the roster alone. -/
theorem drop_shift {course : Course} {i : Nat} {roster : CArray Id maxUsers}
    (hshift : course.shift i = some roster) :
    roster.toList.drop (course.enrolledCount - 1).toNat =
      course.enrolledStudents.toList.drop (course.enrolledCount - 1).toNat := by
  refine forLoop_invariant (I := fun a : CArray Id maxUsers =>
    a.toList.drop (course.enrolledCount - 1).toNat =
      course.enrolledStudents.toList.drop (course.enrolledCount - 1).toNat)
    (fun j a b hj hlast ha hbody => ?_) rfl hshift
  split at hbody
  · cases hbody
  · obtain ⟨-, -, hlist⟩ := CArray.set?_eq_some hbody
    rw [hlist, List.drop_set_of_lt (by omega), ha]

/-- The first section, for a student who is on the roster or not. -/
theorem unrosters_course {records records' : List Course} {pos : Nat} {course : Course}
    (hsound : ∀ course ∈ records, course.Sound)
    (hlocate : locate (Course.hasId courseId) records = some (pos, course))
    (hfrom : unenrollFrom studentId courseId records = some records') :
    ReplacesFirst (Course.hasId courseId) (Course.Loses studentId) records records' := by
  have hcourse := hsound course (mem_of_locate hlocate).1
  cases unrosters_of_eq hfrom with
  | missing hmissing =>
    rw [hlocate] at hmissing
    cases hmissing
  | absent hfound hsearch =>
    cases hlocate.symm.trans hfound
    have hself : course.Loses studentId course :=
      ⟨rfl, (List.erase_of_not_mem (notMem_roster hcourse.inRange hsearch)).symm,
        hcourse.inRange.length_roster.symm, rfl⟩
    have hunchanged := replacesFirst_set hlocate hself
    rwa [set_of_locate hlocate] at hunchanged
  | removed hfound hsearch hshift =>
    cases hlocate.symm.trans hfound
    have hsound' := hcourse.shift hsearch hshift
    obtain ⟨k, rfl, hk, hentry⟩ := roster_of_search hcourse.inRange hsearch
    obtain ⟨_, hsome, hroster⟩ := roster_shift hcourse.inRange hk
    cases hshift.symm.trans hsome
    refine replacesFirst_set hlocate ⟨rfl, ?_, hsound'.inRange.length_roster.symm,
      drop_shift hshift⟩
    rw [hroster, ← hentry, hcourse.nodup.erase_getElem]

/-- The first section changes nothing if the student is not on the roster. -/
theorem unenrollFrom_eq_self {records records' : List Course}
    (hsound : ∀ course ∈ records, course.Sound)
    (habsent : ∀ course, records.find? (Course.hasId courseId) = some course →
      studentId ∉ course.roster)
    (hfrom : unenrollFrom studentId courseId records = some records') : records' = records := by
  cases unrosters_of_eq hfrom with
  | missing | absent => rfl
  | removed hlocate hsearch _ =>
    have hcourse := hsound _ (mem_of_locate hlocate).1
    obtain ⟨k, rfl, hk, hentry⟩ := roster_of_search hcourse.inRange hsearch
    exact absurd (hentry ▸ List.getElem_mem hk) (habsent _ (find?_of_locate hlocate))

end Sections

namespace Tables

variable {t : Tables} {studentId courseId : CString}

theorem Covered.inRange (h : t.Covered) : t.InRange :=
  fun course hcourse => (h.sound course hcourse).inRange

/-- A call that returns has stayed within the arrays. -/
theorem Covered.within_of_unenroll (h : t.Covered) {out : Int × Tables}
    (hcall : t.unenroll studentId courseId = some out) : t.UnenrollsWithin studentId courseId := by
  intro hcourses
  obtain ⟨records, hrecords⟩ := Option.ne_none_iff_exists'.mp hcourses
  rw [unenroll, hrecords] at hcall
  obtain ⟨records', hfrom, hcall⟩ := Option.bind_eq_some_iff.mp hcall
  have hsound : ∀ course ∈ records, course.Sound := by
    simpa [courseRecords, hrecords] using h.sound
  constructor
  · rintro course hcourse entry hentry hover
    rw [courseRecords, hrecords, Option.getD_some] at hcourse
    obtain ⟨pos, hlocate⟩ := exists_locate hcourse
    obtain ⟨found, hfound, hfrom⟩ := Option.bind_eq_some_iff.mp hfrom
    obtain rfl := (locate_of_locate? Course.hasId_of_strcmp hfound).symm.trans hlocate
    have hin := (hsound course (mem_of_locate hlocate).1).inRange
    dsimp only at hfrom
    rw [search_roster hin, if_pos ⟨entry, hentry, hover⟩] at hfrom
    cases hfrom
  · intro student hstudent hover
    obtain ⟨hnone, -⟩ | ⟨students, out, hsome, hout, -⟩ := onStudents_cases hcall
    · rw [studentRecords, show t.students = none from hnone] at hstudent
      cases hstudent
    · rw [studentRecords, show t.students = some students from hsome, Option.getD_some] at hstudent
      rw [unenrollIn, locate?_student, if_pos ⟨student, hstudent, hover⟩] at hout
      cases hout

/-- A course that a student lists is unenrolled from. -/
theorem Covered.unenroll_of_lists (h : t.Covered) (hw : t.UnenrollsWithin studentId courseId)
    (hcourseId : courseId.length < maxId) (hlists : t.Lists studentId courseId) :
    ∃ t', t.unenroll studentId courseId = some (0, t') ∧ t.Unenrolled t' studentId courseId := by
  obtain ⟨student, hfind, hlisted⟩ := hlists
  obtain ⟨course, hcourse⟩ := h.listed student (List.mem_of_find?_eq_some hfind) courseId hlisted
  have hne : courseId ≠ .empty := by simpa using (List.mem_filter.mp hlisted).2
  cases hstudents : t.students with
  | none =>
    rw [studentRecords, hstudents] at hfind
    cases hfind
  | some students =>
    rw [studentRecords, hstudents, Option.getD_some] at hfind
    cases hcourses : t.courses with
    | none =>
      rw [courseRecords, hcourses] at hcourse
      cases hcourse
    | some records =>
      obtain ⟨hentries, hids⟩ := hw (by rw [hcourses]; exact Option.some_ne_none records)
      rw [courseRecords, hcourses, Option.getD_some] at hcourse hentries
      rw [studentRecords, hstudents, Option.getD_some] at hids
      have hsound : ∀ course ∈ records, course.Sound := by
        simpa [courseRecords, hcourses] using h.sound
      obtain ⟨pos, hlocate⟩ := exists_locate hfind
      obtain ⟨cpos, hlocate'⟩ := exists_locate hcourse
      obtain ⟨records', hfrom⟩ := exists_unenrollFrom
        (fun course _ => CArray.not_overrun_of_lt hcourseId course.id) hentries
        fun course hmem => (hsound course hmem).inRange
      obtain ⟨out, hout⟩ := exists_unenrollIn hids
        fun student _ slot _ => CArray.not_overrun_of_lt hcourseId slot
      cases unlists_of_eq hout with
      | missing hmissing =>
        rw [hlocate] at hmissing
        cases hmissing
      | absent hfound hholds =>
        cases hlocate.symm.trans hfound
        rw [(mem_listed hne).mp hlisted] at hholds
        cases hholds
      | @removed _ i _ slots hfound hslot hset =>
        cases hlocate.symm.trans hfound
        refine ⟨⟨some (students.set pos { student with enrolledCourses := slots }),
          some records'⟩, ?_, ⟨students, _, hstudents, rfl, replacesFirst_set hlocate ⟨rfl, ?_⟩⟩,
          ⟨records, records', hcourses, rfl, unrosters_course hsound hlocate' hfrom⟩⟩
        · simp only [unenroll, hcourses, hfrom, Option.bind_some, onStudents, hstudents, hout,
            Option.map_some]
        · obtain ⟨old, hold⟩ := exists_locate_of_findIdx? hslot
          obtain ⟨-, -, hlist⟩ := CArray.set?_eq_some hset
          rw [Int.toNat_natCast] at hlist
          dsimp only
          rw [hlist]
          exact replacesFirst_set hold rfl

/-- A course that a student does not list is not on the roster side either, so a failure changes
nothing. The empty id is found in an empty slot. -/
theorem Covered.unenroll_of_not_lists (h : t.Covered) (hw : t.UnenrollsWithin studentId courseId)
    (hcourseId : courseId.length < maxId) (hlists : ¬ t.Lists studentId courseId) :
    (t.MatchesEmptySlot studentId courseId ∧ ∃ t', t.unenroll studentId courseId = some (0, t')) ∨
    (¬ t.MatchesEmptySlot studentId courseId ∧ ∃ code : Int, code ≠ 0 ∧
      t.unenroll studentId courseId = some (code, t)) := by
  cases hcourses : t.courses with
  | none =>
    refine Or.inr ⟨fun hmatch => ?_, -1, by decide, by simp only [unenroll, hcourses]⟩
    have hsome := hmatch.2.1
    rw [hcourses] at hsome
    cases hsome
  | some records =>
    obtain ⟨hentries, hids⟩ := hw (by rw [hcourses]; exact Option.some_ne_none records)
    rw [courseRecords, hcourses, Option.getD_some] at hentries
    have hsound : ∀ course ∈ records, course.Sound := by
      simpa [courseRecords, hcourses] using h.sound
    have habsent : ∀ course, records.find? (Course.hasId courseId) = some course →
        studentId ∉ course.roster := by
      intro course hcourse hmem
      have hcourse' : t.courseRecords.find? (Course.hasId courseId) = some course := by
        rwa [courseRecords, hcourses, Option.getD_some]
      obtain ⟨student, hfind, hlisted⟩ := h.rosters courseId course hcourse' studentId hmem
      exact hlists ⟨student, hfind, hlisted⟩
    obtain ⟨records', hfrom⟩ := exists_unenrollFrom
      (fun course _ => CArray.not_overrun_of_lt hcourseId course.id) hentries
      fun course hmem => (hsound course hmem).inRange
    have hsame := unenrollFrom_eq_self hsound habsent hfrom
    subst hsame
    have ht : { t with courses := some records' } = t := by rw [← hcourses]
    have hcall : t.unenroll studentId courseId =
        t.onStudents (unenrollIn studentId courseId) := by
      simp only [unenroll, hcourses, hfrom, Option.bind_some]
      rw [← hcourses]
    rw [hcall]
    cases hstudents : t.students with
    | none =>
      refine Or.inr ⟨?_, -1, by decide, by simp only [onStudents, hstudents]⟩
      rintro ⟨-, -, student, hfind, -⟩
      rw [studentRecords, hstudents] at hfind
      cases hfind
    | some students =>
      have hrecords : t.studentRecords = students := by
        rw [studentRecords, hstudents, Option.getD_some]
      have hrun : ∀ {code : Int} {students'}, unenrollIn studentId courseId students =
          some (code, students') → t.onStudents (unenrollIn studentId courseId) =
          some (code, { t with students := some students' }) := fun hout => by
        simp only [onStudents, hstudents, hout, Option.map_some]
      have hself : { t with students := some students } = t := by rw [← hstudents]
      obtain ⟨out, hout⟩ := exists_unenrollIn (hrecords ▸ hids)
        fun student _ slot _ => CArray.not_overrun_of_lt hcourseId slot
      generalize hresult : out = result at hout
      cases unlists_of_eq hout with
      | missing hlocate =>
        refine Or.inr ⟨?_, -1, by decide, by rw [hrun hout, hself]⟩
        rintro ⟨-, -, student, hfind, -⟩
        rw [hrecords, locate_eq_none.mp hlocate] at hfind
        cases hfind
      | @absent pos student hlocate hholds =>
        refine Or.inr ⟨?_, errNotEnrolled, by decide, by rw [hrun hout, hself]⟩
        rintro ⟨rfl, -, found, hfind, hempty⟩
        rw [hrecords, find?_of_locate hlocate] at hfind
        cases hfind
        rw [hholds] at hempty
        cases hempty
      | @removed pos i student slots hlocate hslot hset =>
        have hholds : student.holds courseId = true := by
          obtain ⟨hi, hentry, -⟩ := List.findIdx?_eq_some_iff_getElem.mp hslot
          exact List.any_eq_true.mpr ⟨_, List.getElem_mem hi, hentry⟩
        have hfind : t.studentRecords.find? (Student.hasId studentId) = some student := by
          rw [hrecords, find?_of_locate hlocate]
        have hempty : courseId = .empty := by
          by_contra hne
          exact hlists ⟨student, hfind, (mem_listed hne).mpr hholds⟩
        subst hempty
        refine Or.inl ⟨⟨rfl, ?_, student, hfind, hholds⟩, _, hrun hout⟩
        rw [hcourses]
        rfl

end Tables

/-! ## The call -/

/-- The call has a result. It is 0 if and only if the student lists the course, and then the
student is unenrolled; otherwise the files stay as they are. -/
def Disk.UnenrollsExactly (d : Disk) (studentId courseId : CString) : Prop :=
  ∃ code d', d.execute (unenrollCourse studentId courseId) = some (code, d') ∧
    (code = 0 ↔ d.tables.Lists studentId courseId) ∧
    (code = 0 → d.tables.Unenrolled d'.tables studentId courseId) ∧
    (code ≠ 0 → d'.tables = d.tables)

/-- After every run of complete calls, and for every course id that fits into its array with its
NUL, `unenroll_course` does exactly what it is for if and only if its comparisons stay within the
arrays and it does not get the empty id for a student with an empty slot. -/
theorem unenrollsExactly_iff {history : List (Event Disk Call)} {d : Disk}
    (hrun : Run Disk.perform .empty history d)
    (hseats : ∀ e ∈ history, e.label.Seats (fun _ => True) InSeatRange)
    (studentId : CString) {courseId : CString} (hcourseId : courseId.length < maxId) :
    d.UnenrollsExactly studentId courseId ↔ d.tables.UnenrollsWithin studentId courseId ∧
      ¬ d.tables.MatchesEmptySlot studentId courseId := by
  have hcovered := rostersCovered_of_run hrun hseats
  have hexecute : ∀ {code : Int} {t : Tables}, d.tables.unenroll studentId courseId =
      some (code, t) → ∃ d', d.execute (unenrollCourse studentId courseId) = some (code, d') ∧
        d'.tables = t := by
    intro code t hcall
    have hcomputes : _ = _ := Disk.computes_unenrollCourse (d := d) studentId courseId
    rw [Call.apply, hcall] at hcomputes
    obtain ⟨⟨code', d'⟩, hd', hout⟩ := Option.map_eq_some_iff.mp hcomputes
    cases hout
    exact ⟨d', hd', rfl⟩
  by_cases hw : d.tables.UnenrollsWithin studentId courseId
  · rw [and_iff_right hw]
    by_cases hlists : d.tables.Lists studentId courseId
    · obtain ⟨t, hcall, hunenrolled⟩ := hcovered.unenroll_of_lists hw hcourseId hlists
      obtain ⟨d', hd', rfl⟩ := hexecute hcall
      refine iff_of_true ⟨0, d', hd', iff_of_true rfl hlists, fun _ => hunenrolled,
        fun h => absurd rfl h⟩ ?_
      -- a course that is listed is not the empty id
      rintro ⟨rfl, -, -⟩
      obtain ⟨student, -, hlisted⟩ := hlists
      simpa using (List.mem_filter.mp hlisted).2
    · rcases hcovered.unenroll_of_not_lists hw hcourseId hlists with
        ⟨hmatch, t, hcall⟩ | ⟨hmatch, code, hcode, hcall⟩
      · obtain ⟨d', hd', -⟩ := hexecute hcall
        refine iff_of_false ?_ (not_not.mpr hmatch)
        rintro ⟨code, d'', hd'', hzero, -⟩
        cases hd'.symm.trans hd''
        exact hlists (hzero.mp rfl)
      · obtain ⟨d', hd', htables⟩ := hexecute hcall
        exact iff_of_true ⟨code, d', hd', iff_of_false hcode hlists, fun h => absurd h hcode,
          fun _ => htables⟩ hmatch
  · refine iff_of_false ?_ fun h => hw h.1
    rintro ⟨code, d', hd', -⟩
    have hcomputes : _ = _ := Disk.computes_unenrollCourse (d := d) studentId courseId
    rw [hd'] at hcomputes
    exact hw (hcovered.within_of_unenroll hcomputes.symm)

/-- A student drops the only course. -/
theorem unenrollsExactly_iff_onlyCourse : ∃ history d, Run Disk.perform .empty history d ∧
    d.tables.Lists (.ofString "s1") (.ofString "c1") ∧
    d.UnenrollsExactly (.ofString "s1") (.ofString "c1") := by
  have hreplay : ((replay Disk.perform [] .empty
      [.addStudent (.ofString "s1") (.ofString "Ann"),
        .addCourse (.ofString "c1") (.ofString "Logic") (.ofString "f1") 1,
        .enrollCourse (.ofString "s1") (.ofString "c1")]).map fun out => decide
      ((∀ e ∈ out.1, e.label.Seats (fun _ => True) InSeatRange) ∧
        ∃ student, out.2.tables.studentRecords.find? (Student.hasId (.ofString "s1")) =
          some student ∧ CString.ofString "c1" ∈ student.listed)) = some true := by
    decide +kernel
  obtain ⟨⟨history, d⟩, hout, hcheck⟩ := Option.map_eq_some_iff.mp hreplay
  obtain ⟨hseats, hlists⟩ := of_decide_eq_true hcheck
  have hrun := replay_run .start hout
  have hne : CString.ofString "c1" ≠ .empty := by decide
  have hshort : (CString.ofString "s1").length < maxId := by decide
  refine ⟨history, d, hrun, hlists,
    (unenrollsExactly_iff hrun hseats _ (by decide)).mpr ⟨fun _ => ⟨?_, ?_⟩,
      fun hmatch => hne hmatch.1⟩⟩
  · exact fun course _ entry _ => CArray.not_overrun_of_lt hshort entry
  · exact fun student _ => CArray.not_overrun_of_lt hshort student.id

/-- A student without courses drops the empty id, and the call reports success. -/
theorem emptyId_dropped : ¬ ∀ (history : List (Event Disk Call)) (d : Disk),
    Run Disk.perform .empty history d →
    (∀ e ∈ history, e.label.Seats InSeatRange InSeatRange) →
    ∀ studentId courseId : CString, courseId.length < maxId →
      d.UnenrollsExactly studentId courseId := by
  intro hall
  have hreplay : ((replay Disk.perform [] .empty
      [.addStudent (.ofString "s1") (.ofString "Ann"),
        .addCourse (.ofString "c1") (.ofString "Logic") (.ofString "f1") 1]).map fun out => decide
      ((∀ e ∈ out.1, e.label.Seats InSeatRange InSeatRange) ∧
        (out.2.execute (unenrollCourse (.ofString "s1") .empty)).map (·.1) = some 0)) =
        some true := by
    decide +kernel
  obtain ⟨⟨history, d⟩, hout, hcheck⟩ := Option.map_eq_some_iff.mp hreplay
  obtain ⟨hseats, hzero⟩ := of_decide_eq_true hcheck
  obtain ⟨code, d', hcall, hexact, -⟩ :=
    hall history d (replay_run .start hout) hseats (.ofString "s1") .empty (by decide)
  rw [hcall, Option.map_some, Option.some.injEq] at hzero
  obtain ⟨student, -, hlisted⟩ := hexact.mp hzero
  simpa using (List.mem_filter.mp hlisted).2

end AcademiaCr.Academia
