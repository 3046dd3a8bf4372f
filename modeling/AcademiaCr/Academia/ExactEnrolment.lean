import AcademiaCr.Academia.WellFormed

/-!
# Exactly when a student is enrolled

`enroll_course` makes all its checks before the first of its two writes. It returns 0 if and only
if the checks pass, then does both, and else leaves the files alone, unless a student id of
`MAX_ID` bytes meets a record whose id has no NUL: then its comparison runs on into the name.

## Main definitions

- `Tables.Enrolled`: the files after an enrolment
- `enrollIn_cases`: the section succeeds if and only if the checks pass
- `Disk.EnrollsExactly`: what the complete call does
- `Disk.enrollsExactly_iff`: it does so unless the comparison runs on
-/

namespace AcademiaCr.Academia

open CLang RecordFile

/-- `slot[0] == '\0'`. -/
def slotEmpty (slot : Id) : Bool := slot.toList.head? = some 0

/-- The first record of the student has the course in its first empty slot, the first record of
the course has the student after the others, and the rest of the files is as it was. -/
structure Tables.Enrolled (t t' : Tables) (studentId courseId : CString) : Prop where
  students : ∃ students students', t.students = some students ∧ t'.students = some students' ∧
    ReplacesFirst (Student.hasId studentId)
      (fun student student' =>
        student' = { student with enrolledCourses := student'.enrolledCourses } ∧
        ReplacesFirst slotEmpty (fun _ slot => slot = strncpy maxId courseId ∧ slot.str = courseId)
          student.enrolledCourses.toList student'.enrolledCourses.toList)
      students students'
  courses : ∃ courses courses', t.courses = some courses ∧ t'.courses = some courses' ∧
    ReplacesFirst (Course.hasId courseId)
      (fun course course' =>
        course' = { course with
          enrolledStudents := course'.enrolledStudents
          enrolledCount := course.enrolledCount + 1 } ∧
        course'.enrolledStudents.toList =
          course.enrolledStudents.toList.set course.enrolledCount.toNat (strncpy maxId studentId) ∧
        course'.roster = course.roster ++ [studentId])
      courses courses'

section Section

variable {t : Tables} {studentId courseId : CString} {students : List Student}

/-- The part of `enroll_course` after the checks on the student. -/
theorem enrollSlotIn_cases {spos emptySlot : Nat} {student : Student}
    (hstudentId : studentId.length < maxId) (hcourseId : courseId.length < maxId)
    (hin : ∀ course ∈ t.courseRecords, 0 ≤ course.enrolledCount ∧ course.totalSeats ≤ maxUsers)
    (hfind : t.studentRecords.find? (Student.hasId studentId) = some student)
    (hactive : student.active ≠ 0) (hholds : student.holds courseId = false)
    (hempty : (student.enrolledCourses.toList.findIdx? fun slot => slot.toList.head? = some 0) =
      some emptySlot) :
    ((∃ student course, t.Accepts studentId courseId student course) ∧
      ∃ out, enrollSlotIn studentId courseId spos student emptySlot students t.courses =
        some (0, out)) ∨
    ((¬ ∃ student course, t.Accepts studentId courseId student course) ∧ ∃ code : Int, code ≠ 0 ∧
      enrollSlotIn studentId courseId spos student emptySlot students t.courses =
        some (code, students, t.courses)) := by
  have hrefused : ∀ {found : Option Course}, t.courseRecords.find? (Course.hasId courseId) = found →
      (∀ course, found = some course → ¬ (course.enrolledCount < course.totalSeats ∧
        studentId ∉ course.roster)) →
      ¬ ∃ student course, t.Accepts studentId courseId student course := by
    rintro found hcourse hno ⟨student', course, haccepts⟩
    exact hno course (hcourse.symm.trans haccepts.findCourse) ⟨haccepts.seat, haccepts.absent⟩
  unfold enrollSlotIn
  split
  · next hnone =>
    refine Or.inr ⟨@hrefused none ?_ (by simp), -1, by decide, by rw [hnone]⟩
    rw [Tables.courseRecords, hnone]
    rfl
  · next records hrecords =>
    have hcourses : t.courseRecords = records := by
      rw [Tables.courseRecords, hrecords, Option.getD_some]
    rw [hcourses] at hin hrefused
    rw [locate?_course_of_within fun course _ => CArray.not_overrun_of_lt hcourseId course.id,
      Option.bind_some]
    split
    · next hcourse =>
      exact Or.inr ⟨hrefused (locate_eq_none.mp hcourse) (by simp), errCourseNotFound, by decide,
        by rw [hrecords]⟩
    · next cpos course hcourse =>
      obtain ⟨hnonneg, hmax⟩ := hin course (mem_of_locate hcourse).1
      split
      · next hfull =>
        refine Or.inr ⟨hrefused (find?_of_locate hcourse) ?_, errFull, by decide,
          by rw [hrecords]⟩
        rintro _ ⟨⟩ ⟨hseat, -⟩
        omega
      · next hseat =>
        have hroster : course.InRange := ⟨hnonneg, by omega⟩
        rw [search_roster_of_within hroster fun entry _ =>
          CArray.not_overrun_of_lt hstudentId entry]
        cases hsearch : course.roster.findIdx? (· = studentId) with
        | some i =>
          refine Or.inr ⟨hrefused (find?_of_locate hcourse) ?_, errAlreadyEnrolled, by decide,
            by rw [hrecords]; rfl⟩
          rintro _ ⟨⟩ ⟨-, habsent⟩
          obtain ⟨hi, hentry, -⟩ := List.findIdx?_eq_some_iff_getElem.mp hsearch
          have hstudent : course.roster[i] = studentId := by simpa using hentry
          exact habsent (hstudent ▸ List.getElem_mem hi)
        | none =>
          have habsent : studentId ∉ course.roster := fun hmem => by
            simpa using List.findIdx?_eq_none_iff.mp hsearch studentId hmem
          obtain ⟨hslot, hhead, -⟩ := List.findIdx?_eq_some_iff_getElem.mp hempty
          have haccepts : t.Accepts studentId courseId student course :=
            ⟨hfind, hactive, hholds, ⟨_, List.getElem_mem hslot, by simpa using hhead⟩,
              by rw [hcourses, find?_of_locate hcourse], Int.not_le.mp hseat, habsent⟩
          -- both writes are within their arrays
          rw [student.enrolledCourses.length_toList] at hslot
          obtain ⟨slots, hslots, -⟩ := student.enrolledCourses.exists_set? hslot
            (strncpy maxId courseId)
          obtain ⟨k, hk⟩ := Int.eq_ofNat_of_zero_le hnonneg
          obtain ⟨roster, hset, -⟩ := course.enrolledStudents.exists_set? (i := k) (by omega)
            (strncpy maxId studentId)
          rw [← hk] at hset
          refine Or.inl ⟨⟨student, course, haccepts⟩, ?_⟩
          simp only [Option.map_none, hslots, Option.bind_some, hset, Option.map_some]
          exact ⟨_, rfl⟩

/-- The section of `enroll_course` succeeds if and only if the checks pass, and else returns an
error code and changes nothing. -/
theorem enrollIn_cases (hids : ∀ student ∈ students, ¬ student.id.Overrun studentId)
    (hcourseId : courseId.length < maxId)
    (hin : ∀ course ∈ t.courseRecords, 0 ≤ course.enrolledCount ∧ course.totalSeats ≤ maxUsers)
    (hstudents : t.students = some students) :
    ((∃ student course, t.Accepts studentId courseId student course) ∧
      ∃ out, enrollIn studentId courseId students t.courses = some (0, out)) ∨
    ((¬ ∃ student course, t.Accepts studentId courseId student course) ∧ ∃ code : Int, code ≠ 0 ∧
      enrollIn studentId courseId students t.courses = some (code, students, t.courses)) := by
  have hrecords : t.studentRecords = students := by
    rw [Tables.studentRecords, hstudents, Option.getD_some]
  have hrefused : ∀ {found : Option Student}, students.find? (Student.hasId studentId) = found →
      (∀ student, found = some student → ¬ (student.active ≠ 0 ∧ student.holds courseId = false ∧
        ∃ slot ∈ student.enrolledCourses.toList, slot.toList.head? = some 0)) →
      ¬ ∃ student course, t.Accepts studentId courseId student course := by
    rintro found hfound hno ⟨student, course, haccepts⟩
    have hstudent := haccepts.findStudent
    rw [hrecords, hfound] at hstudent
    exact hno student hstudent ⟨haccepts.active, haccepts.unlisted, haccepts.slot⟩
  have hlocate? := locate?_student_of_within hids
  rw [enrollIn, hlocate?, Option.bind_some]
  split
  · next hstudent =>
    exact Or.inr ⟨hrefused (locate_eq_none.mp hstudent) (by simp), errNotFound, by decide, rfl⟩
  · next spos student hstudent =>
    have hfind := find?_of_locate hstudent
    rw [hstudent] at hlocate?
    have hstudentId := length_of_locate?_student hlocate?
    split
    · next hblocked =>
      refine Or.inr ⟨hrefused hfind ?_, errInvalidInput, by decide, rfl⟩
      rintro _ ⟨⟩ ⟨hactive, -⟩
      exact hactive hblocked
    · next hactive =>
      have hreads : ∀ slot ∈ student.enrolledCourses.toList, ¬ slot.Overrun courseId :=
        fun slot _ => CArray.not_overrun_of_lt hcourseId slot
      obtain ⟨out, hscans⟩ := exists_scanSlots hreads 0 none
      split
      · next hnone =>
        cases hnone.symm.trans hscans
      · next hscan =>
        refine Or.inr ⟨hrefused hfind ?_, errAlreadyEnrolled, by decide, rfl⟩
        rintro _ ⟨⟩ ⟨-, hholds, -⟩
        have hfst := scanSlots_fst hscan
        exact Bool.false_ne_true (hfst.trans hholds).symm
      · next hscan =>
        refine Or.inr ⟨hrefused hfind ?_, errFull, by decide, rfl⟩
        rintro _ ⟨⟩ ⟨-, hholds, slot, hslot, hhead⟩
        have hsnd := scanSlots_snd hscan hholds
        rw [Option.none_or] at hsnd
        have hnone := Option.map_eq_none_iff.mp hsnd.symm
        simpa [hhead] using List.findIdx?_eq_none_iff.mp hnone slot hslot
      · next emptySlot hscan =>
        obtain ⟨hholds, hempty⟩ := of_scanSlots hscan
        exact enrollSlotIn_cases hstudentId hcourseId hin (by rw [hrecords, hfind]) hactive hholds
          hempty

/-- What the section leaves if it succeeds. -/
theorem enrolled_of_eq {out : List Student × Option (List Course)}
    (hstudents : t.students = some students)
    (h : enrollIn studentId courseId students t.courses = some (0, out)) :
    t.Enrolled ⟨some out.1, out.2⟩ studentId courseId := by
  generalize hcode : ((0 : Int), out) = result at h
  cases enrolls_of_eq h with
  | refused hne =>
    cases hcode
    exact absurd rfl hne
  | enrolled hstudent hactive hholds hempty hslots hrecords hcourse hseat hsearch hroster =>
    cases hcode
    have hstored := str_strncpy (length_of_locate_course hcourse)
    refine ⟨⟨students, _, hstudents, rfl, replacesFirst_set hstudent ⟨rfl, ?_⟩⟩,
      ⟨_, _, hrecords, rfl, replacesFirst_set hcourse ⟨rfl, ?_, ?_⟩⟩⟩
    · obtain ⟨slot, hslot⟩ := exists_locate_of_findIdx? hempty
      obtain ⟨-, -, hlist⟩ := CArray.set?_eq_some hslots
      rw [Int.toNat_natCast] at hlist
      dsimp only
      rw [hlist]
      exact replacesFirst_set hslot ⟨rfl, hstored⟩
    · exact (CArray.set?_eq_some hroster).2.2
    · exact roster_enroll (length_of_locate_student hstudent) hroster

end Section

namespace Disk

variable {d : Disk}

/-- `enroll_course`, when `students.dat` exists, is its one section. -/
theorem execute_enrollCourse {fd : Nat} (hn : d.students.named = some fd)
    (studentId courseId : CString) :
    d.execute (enrollCourse studentId courseId) =
      (enrollIn studentId courseId (d.students.read fd) d.courses.content).map fun out =>
        (out.1, d.enrolled fd out.2.1 out.2.2) := by
  refine (execute_withFile_named (f := .students) hn false (-1) _).trans ?_
  refine execute_of_runSection fun next => ?_
  rw [Option.map_map]
  exact runSection_enroll studentId courseId fd next

/-- The call has a result. It is 0 if and only if all checks pass, and then the student is
enrolled; otherwise the files stay as they are. -/
def EnrollsExactly (d : Disk) (studentId courseId : CString) : Prop :=
  ∃ code d', d.execute (enrollCourse studentId courseId) = some (code, d') ∧
    (code = 0 ↔ ∃ student course, d.tables.Accepts studentId courseId student course) ∧
    (code = 0 → d.tables.Enrolled d'.tables studentId courseId) ∧ (code ≠ 0 → d' = d)

theorem enrollsExactly_of_within {studentId courseId : CString}
    (hids : ∀ student ∈ d.tables.studentRecords, ¬ student.id.Overrun studentId)
    (hcourseId : courseId.length < maxId)
    (hin : ∀ course ∈ d.tables.courseRecords,
      0 ≤ course.enrolledCount ∧ course.totalSeats ≤ maxUsers) :
    d.EnrollsExactly studentId courseId := by
  cases hn : d.students.named with
  | none =>
    have hmissing : d.tables.students = none := NamedFile.content_eq_none.mpr hn
    refine ⟨-1, d, execute_withFile_missing (f := .students) hn (-1) _, ?_,
      fun h => absurd h (by decide), fun _ => rfl⟩
    refine iff_of_false (by decide) ?_
    rintro ⟨student, course, haccepts⟩
    have hfind := haccepts.findStudent
    rw [Tables.studentRecords, hmissing] at hfind
    cases hfind
  | some fd =>
    have hcontent : d.tables.students = some (d.students.read fd) := NamedFile.content_of_named hn
    rw [Tables.studentRecords, hcontent, Option.getD_some] at hids
    have hrun := execute_enrollCourse hn studentId courseId
    rcases enrollIn_cases hids hcourseId hin hcontent with
      ⟨haccepts, out, hout⟩ | ⟨hrefused, code, hcode, hout⟩
    · have hout' : enrollIn studentId courseId (d.students.read fd) d.courses.content = _ := hout
      rw [hout'] at hrun
      refine ⟨0, _, hrun, iff_of_true rfl haccepts, fun _ => ?_, fun h => absurd rfl h⟩
      rw [tables_enrolled hn (enrollIn_isSome hout')]
      exact enrolled_of_eq hcontent hout
    · have hout' : enrollIn studentId courseId (d.students.read fd) d.courses.content = _ := hout
      rw [hout', Option.map_some] at hrun
      refine ⟨code, _, hrun, iff_of_false hcode hrefused, fun h => absurd h hcode, fun _ => ?_⟩
      exact enrolled_eq_self fd

/-- The search for the student reads on after an id without NUL. -/
theorem not_enrollsExactly {studentId courseId : CString}
    (hover : ∃ student ∈ d.tables.studentRecords, student.id.Overrun studentId) :
    ¬ d.EnrollsExactly studentId courseId := by
  rintro ⟨code, d', hrun, -⟩
  cases hn : d.students.named with
  | none =>
    obtain ⟨student, hstudent, -⟩ := hover
    have hmissing : d.tables.students = none := NamedFile.content_eq_none.mpr hn
    rw [Tables.studentRecords, hmissing] at hstudent
    cases hstudent
  | some fd =>
    have hcontent : d.tables.students = some (d.students.read fd) := NamedFile.content_of_named hn
    rw [Tables.studentRecords, hcontent, Option.getD_some] at hover
    have hnone : enrollIn studentId courseId (d.students.read fd) d.courses.content = none := by
      rw [enrollIn, locate?_student, if_pos hover, Option.bind_none]
    rw [execute_enrollCourse hn, hnone] at hrun
    cases hrun

/-- For all files whose counts are not negative and whose courses have no more seats than the
array has entries, and every course id that fits into its array with its NUL: `enroll_course` is
exact unless its student id runs on after the id of a record. -/
theorem enrollsExactly_iff (d : Disk) (hin : ∀ course ∈ d.tables.courseRecords,
    0 ≤ course.enrolledCount ∧ course.totalSeats ≤ maxUsers) (studentId : CString)
    {courseId : CString} (hcourseId : courseId.length < maxId) :
    d.EnrollsExactly studentId courseId ↔
      ∀ student ∈ d.tables.studentRecords, ¬ student.id.Overrun studentId := by
  constructor
  · intro h student hstudent hover
    exact not_enrollsExactly ⟨student, hstudent, hover⟩ h
  · intro h
    exact enrollsExactly_of_within h hcourseId hin

/-- A student whose id fills its array. -/
def longId : List Call :=
  [.addStudent (.ofString "student001") (.ofString "John"),
    .addCourse (.ofString "c1") (.ofString "Logic") (.ofString "f1") 1]

/-- The comparison runs on from the id into the name. -/
theorem longId_not_enrolled : ¬ ∀ (d : Disk) (studentId courseId : CString),
    (∀ course ∈ d.tables.courseRecords,
      0 ≤ course.enrolledCount ∧ course.totalSeats ≤ maxUsers) →
    courseId ≠ .empty → courseId.length < maxId → d.EnrollsExactly studentId courseId := by
  intro hall
  have hcheck : ((empty.performAll longId).map fun d =>
      decide ((∀ course ∈ d.tables.courseRecords,
        0 ≤ course.enrolledCount ∧ course.totalSeats ≤ (maxUsers : Int)) ∧
          ∃ student ∈ d.tables.studentRecords, student.id.Overrun (.ofString "student001"))) =
        some true := by
    decide +kernel
  obtain ⟨d, -, hd⟩ := Option.map_eq_some_iff.mp hcheck
  obtain ⟨hin, hover⟩ := of_decide_eq_true hd
  exact not_enrollsExactly hover
    (hall d (.ofString "student001") (.ofString "c1") hin (by decide) (by decide))

/-- The bytes of the record from the id on, up to a NUL. -/
example : let student := newStudent (.ofString "student001") (.ofString "John")
    (student.id.toList ++ student.name.toList).takeWhile (· ≠ 0) =
      (CString.ofString "student001John").1 := by
  decide +kernel

/-- A student takes the only seat of a course. -/
def lastSeat : List Call :=
  [.addStudent (.ofString "s1") (.ofString "Ann"),
    .addCourse (.ofString "c1") (.ofString "Logic") (.ofString "f1") 1]

theorem enrollsExactly_iff_lastSeat : ∃ d, empty.performAll lastSeat = some d ∧
    (d.execute (enrollCourse (.ofString "s1") (.ofString "c1"))).map (·.1) = some 0 ∧
    d.EnrollsExactly (.ofString "s1") (.ofString "c1") := by
  have hcheck : ((empty.performAll lastSeat).map fun d =>
      decide ((∀ course ∈ d.tables.courseRecords,
        0 ≤ course.enrolledCount ∧ course.totalSeats ≤ (maxUsers : Int)) ∧
          (d.execute (enrollCourse (.ofString "s1") (.ofString "c1"))).map (·.1) = some 0)) =
        some true := by
    decide +kernel
  obtain ⟨d, hd, hcheck⟩ := Option.map_eq_some_iff.mp hcheck
  obtain ⟨hin, hzero⟩ := of_decide_eq_true hcheck
  have hshort : (CString.ofString "s1").length < maxId := by decide
  exact ⟨d, hd, hzero, (enrollsExactly_iff d hin (.ofString "s1") (by decide)).mpr
    fun student _ => CArray.not_overrun_of_lt hshort student.id⟩

end Disk

end AcademiaCr.Academia
