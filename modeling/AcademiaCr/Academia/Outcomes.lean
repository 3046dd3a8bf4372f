import AcademiaCr.Academia.Enrolment

/-!
# What a section can do

Each section of an operation either leaves the contents as they are or makes the one edit it is
there for, under the conditions that it has checked.

## Main definitions

- `Overwrites`: the outcomes of a section that overwrites a record
- `Enrolls`: the outcomes of `enroll_course`
- `Unrosters`, `Unlists`: the outcomes of the two sections of `unenroll_course`
-/

namespace AcademiaCr.Academia

open CLang RecordFile

/-- A section that overwrites the first record that matches. -/
inductive Overwrites {ρ : Type} (found : ρ → Bool) (edit : ρ → Option ρ) (records : List ρ) :
    Int × List ρ → Prop
  | missing : locate found records = none → Overwrites found edit records (-1, records)
  | edited {pos : Nat} {r r' : ρ} : locate found records = some (pos, r) → edit r = some r' →
      Overwrites found edit records (0, records.set pos r')

theorem overwrites_of_eq {ρ : Type} {found : ρ → Option Bool} {p : ρ → Bool}
    (hp : ∀ r b, found r = some b → p r = b) {edit : ρ → Option ρ} {records : List ρ}
    {out : Int × List ρ} (h : overwriteIn found edit records = some out) :
    Overwrites p edit records out := by
  obtain ⟨x, hx, h⟩ := Option.bind_eq_some_iff.mp h
  have hlocate := locate_of_locate? hp hx
  obtain _ | ⟨pos, r⟩ := x
  · cases h
    exact .missing hlocate
  · obtain ⟨r', hedit, rfl⟩ := Option.map_eq_some_iff.mp h
    exact .edited hlocate hedit

/-- The outcomes of `enroll_course`. -/
inductive Enrolls (studentId courseId : CString) (students : List Student)
    (courses : Option (List Course)) : Int × List Student × Option (List Course) → Prop
  | refused {code : Int} : code ≠ 0 →
      Enrolls studentId courseId students courses (code, students, courses)
  | enrolled {spos cpos emptySlot : Nat} {student : Student} {course : Course}
      {records : List Course} {slots : CArray Id maxCourses} {roster : CArray Id maxUsers} :
      locate (Student.hasId studentId) students = some (spos, student) →
      student.active ≠ 0 →
      student.holds courseId = false →
      (student.enrolledCourses.toList.findIdx? fun slot => slot.toList.head? = some 0) =
        some emptySlot →
      student.enrolledCourses.set? emptySlot (strncpy maxId courseId) = some slots →
      courses = some records →
      locate (Course.hasId courseId) records = some (cpos, course) →
      course.enrolledCount < course.totalSeats →
      course.enrolledStudents.search (strcmpEntry studentId) 0 course.enrolledCount.toNat =
        some none →
      course.enrolledStudents.set? course.enrolledCount (strncpy maxId studentId) = some roster →
      Enrolls studentId courseId students courses
        (0, students.set spos { student with enrolledCourses := slots },
          some (records.set cpos
            { course with
              enrolledStudents := roster, enrolledCount := course.enrolledCount + 1 }))

theorem enrolls_of_eq {studentId courseId : CString} {students : List Student}
    {courses : Option (List Course)} {out : Int × List Student × Option (List Course)}
    (h : enrollIn studentId courseId students courses = some out) :
    Enrolls studentId courseId students courses out := by
  obtain ⟨x, hx, h⟩ := Option.bind_eq_some_iff.mp h
  have hstudent := locate_of_locate? Student.hasId_of_strcmp hx
  obtain _ | ⟨spos, student⟩ := x
  · cases h
    exact .refused (by decide)
  · dsimp only at h
    split at h
    · cases h
      exact .refused (by decide)
    · next hactive =>
      split at h
      · cases h
      · cases h
        exact .refused (by decide)
      · cases h
        exact .refused (by decide)
      · next emptySlot hscan =>
        obtain ⟨hholds, hempty⟩ := of_scanSlots hscan
        unfold enrollSlotIn at h
        split at h
        · cases h
          exact .refused (by decide)
        · next records =>
          obtain ⟨y, hy, h⟩ := Option.bind_eq_some_iff.mp h
          have hcourse := locate_of_locate? Course.hasId_of_strcmp hy
          obtain _ | ⟨cpos, course⟩ := y
          · cases h
            exact .refused (by decide)
          · dsimp only at h
            split at h
            · cases h
              exact .refused (by decide)
            · next hseats =>
              split at h
              · cases h
              · cases h
                exact .refused (by decide)
              · next hsearch =>
                obtain ⟨slots, hslots, h⟩ := Option.bind_eq_some_iff.mp h
                obtain ⟨roster, hroster, rfl⟩ := Option.map_eq_some_iff.mp h
                exact .enrolled hstudent hactive hholds hempty hslots rfl hcourse
                  (Int.not_le.mp hseats) hsearch hroster

/-- The outcomes of the first section of `unenroll_course`. -/
inductive Unrosters (studentId courseId : CString) (records : List Course) :
    List Course → Prop
  | missing : locate (Course.hasId courseId) records = none →
      Unrosters studentId courseId records records
  | absent {pos : Nat} {course : Course} :
      locate (Course.hasId courseId) records = some (pos, course) →
      course.enrolledStudents.search (strcmpEntry studentId) 0 course.enrolledCount.toNat =
        some none →
      Unrosters studentId courseId records records
  | removed {pos : Nat} {course : Course} {i : Int} {roster : CArray Id maxUsers} :
      locate (Course.hasId courseId) records = some (pos, course) →
      course.enrolledStudents.search (strcmpEntry studentId) 0 course.enrolledCount.toNat =
        some (some i) →
      course.shift i = some roster →
      Unrosters studentId courseId records
        (records.set pos
          { course with
            enrolledStudents := roster, enrolledCount := course.enrolledCount - 1 })

theorem unrosters_of_eq {studentId courseId : CString} {records records' : List Course}
    (h : unenrollFrom studentId courseId records = some records') :
    Unrosters studentId courseId records records' := by
  obtain ⟨x, hx, h⟩ := Option.bind_eq_some_iff.mp h
  have hlocate := locate_of_locate? Course.hasId_of_strcmp hx
  obtain _ | ⟨pos, course⟩ := x
  · cases h
    exact .missing hlocate
  · dsimp only at h
    split at h
    · cases h
    · next hsearch =>
      cases h
      exact .absent hlocate hsearch
    · next i hsearch =>
      obtain ⟨roster, hshift, rfl⟩ := Option.map_eq_some_iff.mp h
      exact .removed hlocate hsearch hshift

/-- The outcomes of the second section of `unenroll_course`. -/
inductive Unlists (studentId courseId : CString) (records : List Student) :
    Int × List Student → Prop
  | missing : locate (Student.hasId studentId) records = none →
      Unlists studentId courseId records (-1, records)
  | absent {pos : Nat} {student : Student} :
      locate (Student.hasId studentId) records = some (pos, student) →
      student.holds courseId = false →
      Unlists studentId courseId records (errNotEnrolled, records)
  | removed {pos i : Nat} {student : Student} {slots : CArray Id maxCourses} :
      locate (Student.hasId studentId) records = some (pos, student) →
      student.enrolledCourses.toList.findIdx? (entryIs courseId) = some i →
      student.enrolledCourses.set? i zeros = some slots →
      Unlists studentId courseId records
        (0, records.set pos { student with enrolledCourses := slots })

theorem unlists_of_eq {studentId courseId : CString} {records : List Student}
    {out : Int × List Student} (h : unenrollIn studentId courseId records = some out) :
    Unlists studentId courseId records out := by
  obtain ⟨x, hx, h⟩ := Option.bind_eq_some_iff.mp h
  have hlocate := locate_of_locate? Student.hasId_of_strcmp hx
  obtain _ | ⟨pos, student⟩ := x
  · cases h
    exact .missing hlocate
  · obtain ⟨y, hy, h⟩ := Option.bind_eq_some_iff.mp h
    have hslot := locate_of_locate? entryIs_of_strcmp hy
    obtain _ | ⟨i, slot⟩ := y
    · cases h
      refine .absent hlocate ?_
      rw [Student.holds, ← isSome_locate, hslot]
      rfl
    · obtain ⟨slots, hset, rfl⟩ := Option.map_eq_some_iff.mp h
      refine .removed hlocate ?_ hset
      rw [← map_fst_locate, hslot, Option.map_some]

/-! ## Ids that are found -/

section Located

variable {id : CString} {pos : Nat}

section Student

variable {students : List Student} {student student' : Student}

theorem str_of_locate_student (hlocate : locate (Student.hasId id) students = some (pos, student)) :
    student.id.str = id := by
  simpa [Student.hasId] using (mem_of_locate hlocate).2

/-- An id that is found in an array fits into one. -/
theorem length_of_locate_student
    (hlocate : locate (Student.hasId id) students = some (pos, student)) : id.length ≤ maxId :=
  str_of_locate_student hlocate ▸ length_str_le _

/-- The record that has been overwritten is found under its id. -/
theorem find?_setStudent_self
    (hlocate : locate (Student.hasId id) students = some (pos, student))
    (hid : student'.id = student.id) :
    (students.set pos student').find? (Student.hasId id) = some student' :=
  find?_set_self hlocate (hid ▸ str_of_locate_student hlocate)

theorem find?_setStudent_other
    (hlocate : locate (Student.hasId id) students = some (pos, student))
    (hid : student'.id = student.id) {s : CString} (hs : s ≠ id) :
    (students.set pos student').find? (Student.hasId s) = students.find? (Student.hasId s) :=
  find?_set_other hlocate (hid ▸ str_of_locate_student hlocate) hs

end Student

section Course

variable {courses : List Course} {course course' : Course}

theorem str_of_locate_course (hlocate : locate (Course.hasId id) courses = some (pos, course)) :
    course.id.str = id := by
  simpa [Course.hasId] using (mem_of_locate hlocate).2

theorem length_of_locate_course
    (hlocate : locate (Course.hasId id) courses = some (pos, course)) : id.length ≤ maxId :=
  str_of_locate_course hlocate ▸ length_str_le _

theorem find?_setCourse_self
    (hlocate : locate (Course.hasId id) courses = some (pos, course))
    (hid : course'.id = course.id) :
    (courses.set pos course').find? (Course.hasId id) = some course' :=
  find?_set_self hlocate (hid ▸ str_of_locate_course hlocate)

theorem find?_setCourse_other
    (hlocate : locate (Course.hasId id) courses = some (pos, course))
    (hid : course'.id = course.id) {c : CString} (hc : c ≠ id) :
    (courses.set pos course').find? (Course.hasId c) = courses.find? (Course.hasId c) :=
  find?_set_other hlocate (hid ▸ str_of_locate_course hlocate) hc

/-- The ids of the courses stay as they are. -/
theorem ids_setCourse (hlocate : locate (Course.hasId id) courses = some (pos, course))
    (hid : course'.id = course.id) :
    (courses.set pos course').map (·.id.str) = courses.map (·.id.str) :=
  map_set hlocate (hid ▸ str_of_locate_course hlocate)

end Course

end Located

/-- The scan stops at an empty slot if it looks for the empty id. -/
theorem ne_empty_of_emptySlot {id : CString} {student : Student} {i : Nat}
    (hholds : student.holds id = false)
    (hempty : (student.enrolledCourses.toList.findIdx? fun slot => slot.toList.head? = some 0) =
      some i) : id ≠ .empty := by
  obtain ⟨hi, hhead, -⟩ := List.findIdx?_eq_some_iff_getElem.mp hempty
  have hstr : (student.enrolledCourses.toList[i]).str = .empty :=
    str_of_head? (by simpa using hhead)
  have hno := (List.any_eq_false.mp hholds) _ (List.getElem_mem hi)
  rintro rfl
  simp [entryIs, hstr] at hno

end AcademiaCr.Academia
