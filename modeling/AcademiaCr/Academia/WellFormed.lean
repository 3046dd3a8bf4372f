import Mathlib.Data.List.Nodup
import AcademiaCr.Academia.Outcomes

/-!
# Well-formed tables

Course ids, rosters and slots stay free of duplicates in every sequence of complete calls, and
the number of enrolled students stays within the seats.

## Main definitions

- `Call.ValidIds`, `Call.Seats`: the arguments of the calls
- `Tables.Sound`: no duplicates, and rosters within their arrays
- `Tables.Seated`: no more students than seats
- `Tables.Within`, `Call.Within`: no comparison of ids leaves an array
- `Disk.perform`, `Disk.performAll`: complete calls, one after another
-/

namespace AcademiaCr.Academia

open CLang RecordFile

/-! ## Arguments -/

/-- An id of 1 to `MAX_ID - 1` bytes. -/
def ValidId (id : CString) : Prop := id ≠ .empty ∧ id.length < maxId

/-- The ids among the arguments are valid. -/
def Call.ValidIds : Call → Prop
  | .addStudent id _ => ValidId id
  | .updateStudent id _ => ValidId id
  | .activateDeactivateStudent id _ => ValidId id
  | .addCourse id _ _ _ => ValidId id
  | .updateCourse id _ _ => ValidId id
  | .removeCourse id => ValidId id
  | .enrollCourse studentId courseId => ValidId studentId ∧ ValidId courseId
  | .unenrollCourse studentId courseId => ValidId studentId ∧ ValidId courseId

instance : DecidablePred ValidId := fun id =>
  inferInstanceAs (Decidable (id ≠ .empty ∧ id.length < maxId))

instance : DecidablePred Call.ValidIds
  | .addStudent id _ => inferInstanceAs (Decidable (ValidId id))
  | .updateStudent id _ => inferInstanceAs (Decidable (ValidId id))
  | .activateDeactivateStudent id _ => inferInstanceAs (Decidable (ValidId id))
  | .addCourse id _ _ _ => inferInstanceAs (Decidable (ValidId id))
  | .updateCourse id _ _ => inferInstanceAs (Decidable (ValidId id))
  | .removeCourse id => inferInstanceAs (Decidable (ValidId id))
  | .enrollCourse studentId courseId =>
    inferInstanceAs (Decidable (ValidId studentId ∧ ValidId courseId))
  | .unenrollCourse studentId courseId =>
    inferInstanceAs (Decidable (ValidId studentId ∧ ValidId courseId))

/-- The seat counts that `add_course` and `update_course` are given. -/
def Call.Seats (added updated : Int → Prop) : Call → Prop
  | .addCourse _ _ _ seats => added seats
  | .updateCourse _ _ newSeats => updated newSeats
  | _ => True

theorem Call.Seats.weaken {added updated : Int → Prop} {call : Call}
    (h : call.Seats added updated) : call.Seats (fun _ => True) updated := by
  cases call with
  | updateCourse => exact h
  | _ => trivial

/-- A seat count between 0 and `MAX_USERS`. -/
def InSeatRange (seats : Int) : Prop := 0 ≤ seats ∧ seats ≤ maxUsers

instance : DecidablePred InSeatRange := fun seats =>
  inferInstanceAs (Decidable (0 ≤ seats ∧ seats ≤ maxUsers))

instance {added updated : Int → Prop} [DecidablePred added] [DecidablePred updated] :
    DecidablePred (Call.Seats added updated)
  | .addCourse _ _ _ seats => inferInstanceAs (Decidable (added seats))
  | .updateCourse _ _ newSeats => inferInstanceAs (Decidable (updated newSeats))
  | .addStudent _ _ | .updateStudent _ _ | .activateDeactivateStudent _ _ | .removeCourse _
  | .enrollCourse _ _ | .unenrollCourse _ _ => inferInstanceAs (Decidable True)

theorem ValidId.str_strncpy {id : CString} (h : ValidId id) : (strncpy maxId id).str = id :=
  CLang.str_strncpy (Nat.le_of_lt h.2)

/-! ## Courses -/

/-- The roster is within its array and has nobody twice. -/
structure Course.Sound (course : Course) : Prop where
  inRange : course.InRange
  nodup : course.roster.Nodup

/-- No more students than seats, and no more seats than the array has entries. -/
structure Course.Seated (course : Course) : Prop where
  nonneg : 0 ≤ course.enrolledCount
  le_seats : course.enrolledCount ≤ course.totalSeats
  le_max : course.totalSeats ≤ maxUsers

section Course

variable {course : Course} {studentId : CString}

theorem resize_id {newName : CString} {newSeats : Int} {course' : Course}
    (h : course.resize newName newSeats = some course') : course'.id = course.id := by
  unfold Course.resize at h
  split at h
  · obtain ⟨roster, -, rfl⟩ := Option.map_eq_some_iff.mp h
    rfl
  · cases h
    rfl

theorem roster_newCourse (id name facultyId : CString) (seats : Int) :
    (newCourse id name facultyId seats).roster = [] := rfl

theorem sound_newCourse (id name facultyId : CString) (seats : Int) :
    (newCourse id name facultyId seats).Sound :=
  ⟨⟨Int.le_refl 0, Int.natCast_nonneg _⟩, List.nodup_nil⟩

theorem Course.Sound.resize (h : course.Sound) {newName : CString} {newSeats : Int}
    (h₀ : 0 ≤ newSeats) {course' : Course}
    (hresize : course.resize newName newSeats = some course') :
    course'.Sound := by
  obtain ⟨_, hsome, -, -, hcount, hroster⟩ := roster_resize h.inRange newName h₀
  cases hresize.symm.trans hsome
  obtain ⟨hnonneg, hmax⟩ := h.inRange
  refine ⟨⟨by omega, by omega⟩, ?_⟩
  rw [hroster]
  exact h.nodup.sublist (List.take_sublist _ _)

theorem Course.Sound.enroll (h : course.Sound) (hid : studentId.length ≤ maxId)
    (hsearch : course.enrolledStudents.search (strcmpEntry studentId) 0
      course.enrolledCount.toNat = some none)
    {roster : CArray Id maxUsers}
    (hset : course.enrolledStudents.set? course.enrolledCount (strncpy maxId studentId) =
      some roster) :
    ({ course with
        enrolledStudents := roster,
        enrolledCount := course.enrolledCount + 1 } : Course).Sound := by
  obtain ⟨h₀, hmax, -⟩ := CArray.set?_eq_some hset
  have hnotMem := notMem_roster h.inRange hsearch
  refine ⟨⟨?_, ?_⟩, ?_⟩
  · show 0 ≤ course.enrolledCount + 1
    omega
  · show course.enrolledCount + 1 ≤ maxUsers
    omega
  · rw [roster_enroll hid hset]
    exact List.nodup_append.mpr ⟨h.nodup, List.nodup_singleton _, fun a ha b hb hab =>
      hnotMem (by rw [← List.mem_singleton.mp hb, ← hab]; exact ha)⟩

theorem Course.Sound.shift (h : course.Sound) {i : Int}
    (hsearch : course.enrolledStudents.search (strcmpEntry studentId) 0
      course.enrolledCount.toNat = some (some i))
    {roster : CArray Id maxUsers} (hshift : course.shift i = some roster) :
    ({ course with
        enrolledStudents := roster,
        enrolledCount := course.enrolledCount - 1 } : Course).Sound := by
  obtain ⟨k, rfl, hk, -⟩ := roster_of_search h.inRange hsearch
  obtain ⟨_, hsome, hroster⟩ := roster_shift h.inRange hk
  cases hshift.symm.trans hsome
  have hlength := h.inRange.length_roster
  obtain ⟨hnonneg, hmax⟩ := h.inRange
  refine ⟨⟨?_, ?_⟩, ?_⟩
  · show 0 ≤ course.enrolledCount - 1
    omega
  · show course.enrolledCount - 1 ≤ maxUsers
    omega
  · rw [hroster]
    exact h.nodup.sublist (List.eraseIdx_sublist _ _)

theorem Course.Seated.inRange (h : course.Seated) : course.InRange :=
  ⟨h.nonneg, le_trans h.le_seats h.le_max⟩

theorem Course.Seated.resize (h : course.Seated) {newName : CString} {newSeats : Int}
    (h₀ : 0 ≤ newSeats) (hmax : newSeats ≤ maxUsers) {course' : Course}
    (hresize : course.resize newName newSeats = some course') : course'.Seated := by
  obtain ⟨_, hsome, -, hseats, hcount, -⟩ := roster_resize h.inRange newName h₀
  cases hresize.symm.trans hsome
  have hnonneg := h.nonneg
  exact ⟨by omega, by omega, by omega⟩

end Course

/-! ## Tables -/

/-- Records of courses: different ids, and each one as stated. -/
structure CoursesAre (P : Course → Prop) (records : List Course) : Prop where
  ids : (records.map (·.id.str)).Nodup
  all : ∀ course ∈ records, P course

section Courses

variable {P : Course → Prop} {records : List Course}

theorem CoursesAre.append (h : CoursesAre P records) {id name facultyId : CString} {seats : Int}
    (hid : ValidId id) (hnew : records.any (Course.hasId id) = false)
    (hP : P (newCourse id name facultyId seats)) :
    CoursesAre P (records ++ [newCourse id name facultyId seats]) := by
  have hstr : (newCourse id name facultyId seats).id.str = id := hid.str_strncpy
  refine ⟨?_, fun course hcourse => ?_⟩
  · rw [List.map_append, List.map_singleton, hstr]
    refine List.nodup_append.mpr ⟨h.ids, List.nodup_singleton _, fun a ha b hb hab => ?_⟩
    obtain ⟨course, hcourse, rfl⟩ := List.mem_map.mp ha
    rw [List.mem_singleton.mp hb] at hab
    exact (List.any_eq_false.mp hnew) course hcourse (by simpa [Course.hasId] using hab)
  · obtain hcourse | hcourse := List.mem_append.mp hcourse
    · exact h.all course hcourse
    · rw [List.mem_singleton.mp hcourse]
      exact hP

theorem CoursesAre.set (h : CoursesAre P records) {id : CString} {pos : Nat}
    {course course' : Course} (hlocate : locate (Course.hasId id) records = some (pos, course))
    (hid : course'.id = course.id) (hP : P course') : CoursesAre P (records.set pos course') := by
  refine ⟨?_, fun x hx => ?_⟩
  · rw [ids_setCourse hlocate hid]
    exact h.ids
  · obtain hx | rfl := List.mem_or_eq_of_mem_set hx
    · exact h.all x hx
    · exact hP

theorem CoursesAre.others (h : CoursesAre P records) (id : CString) :
    CoursesAre P (others id records) :=
  ⟨h.ids.sublist (List.filter_sublist.map _), fun course hcourse =>
    h.all course (List.mem_of_mem_filter hcourse)⟩

theorem CoursesAre.addCourseTo (h : CoursesAre P records) {id name facultyId : CString}
    {seats : Int} (hid : ValidId id) (hP : P (newCourse id name facultyId seats))
    {out : Int × List Course} (hout : addCourseTo id name facultyId seats records = some out) :
    CoursesAre P out.2 := by
  obtain ⟨-, rfl⟩ | ⟨hnew, rfl⟩ := addCourseTo_cases hout
  · exact h
  · exact h.append hid hnew hP

theorem coursesAre_nil : CoursesAre P [] := ⟨List.nodup_nil, fun _ h => by cases h⟩

end Courses

/-- A property of courses that every edit of the operations keeps, with the seat counts of
`add_course` and `update_course` as stated. -/
structure KeptByEdits (P : Course → Prop) (added updated : Int → Prop) : Prop where
  new : ∀ id name facultyId seats, added seats → P (newCourse id name facultyId seats)
  resize : ∀ course newName newSeats course', P course → updated newSeats →
    course.resize newName newSeats = some course' → P course'
  enroll : ∀ (course : Course) studentId roster, P course → studentId.length ≤ maxId →
    course.enrolledCount < course.totalSeats →
    course.enrolledStudents.search (strcmpEntry studentId) 0 course.enrolledCount.toNat =
      some none →
    course.enrolledStudents.set? course.enrolledCount (strncpy maxId studentId) = some roster →
    P { course with enrolledStudents := roster, enrolledCount := course.enrolledCount + 1 }
  shift : ∀ (course : Course) studentId i roster, P course →
    course.enrolledStudents.search (strcmpEntry studentId) 0 course.enrolledCount.toNat =
      some (some i) →
    course.shift i = some roster →
    P { course with enrolledStudents := roster, enrolledCount := course.enrolledCount - 1 }

theorem sound_keptByEdits : KeptByEdits Course.Sound (fun _ => True) InSeatRange where
  new id name facultyId seats _ := sound_newCourse id name facultyId seats
  resize _ _ _ _ h hseats hresize := h.resize hseats.1 hresize
  enroll _ _ _ h hid _ hsearch hset := h.enroll hid hsearch hset
  shift _ _ _ _ h hsearch hshift := h.shift hsearch hshift

theorem seated_keptByEdits :
    KeptByEdits Course.Seated InSeatRange InSeatRange where
  new id name facultyId seats h := ⟨Int.le_refl 0, h.1, h.2⟩
  resize _ _ _ _ h hseats hresize := h.resize hseats.1 hseats.2 hresize
  enroll course _ _ h _ hlt _ _ := by
    have hnonneg := h.nonneg
    refine ⟨?_, ?_, h.le_max⟩
    · show 0 ≤ course.enrolledCount + 1
      omega
    · show course.enrolledCount + 1 ≤ course.totalSeats
      omega
  shift course _ _ _ h hsearch _ := by
    obtain ⟨k, -, hk, -⟩ := roster_of_search h.inRange hsearch
    have hlength := h.inRange.length_roster
    have hle := h.le_seats
    refine ⟨?_, ?_, h.le_max⟩
    · show 0 ≤ course.enrolledCount - 1
      omega
    · show course.enrolledCount - 1 ≤ course.totalSeats
      omega

section Sections

variable {P : Course → Prop} {added updated : Int → Prop} {studentId courseId : CString}

/-- The section of `enroll_course` keeps what its edit keeps. -/
theorem CoursesAre.enrollIn (hP : KeptByEdits P added updated) {students : List Student}
    {courses : Option (List Course)} (h : CoursesAre P (courses.getD []))
    {out : Int × List Student × Option (List Course)}
    (hout : enrollIn studentId courseId students courses = some out) :
    CoursesAre P (out.2.2.getD []) := by
  cases enrolls_of_eq hout with
  | refused => exact h
  | enrolled hstudent _ _ _ _ hrecords hlocate hlt hsearch hset =>
    rw [hrecords, Option.getD_some] at h
    exact h.set hlocate rfl
      (hP.enroll _ _ _ (h.all _ (mem_of_locate hlocate).1) (length_of_locate_student hstudent)
        hlt hsearch hset)

/-- The first section of `unenroll_course` keeps what its edit keeps. -/
theorem CoursesAre.unenrollFrom (hP : KeptByEdits P added updated) {records records' : List Course}
    (h : CoursesAre P records) (hfrom : unenrollFrom studentId courseId records = some records') :
    CoursesAre P records' := by
  cases unrosters_of_eq hfrom with
  | missing | absent => exact h
  | removed hlocate hsearch hshift =>
    exact h.set hlocate rfl (hP.shift _ _ _ _ (h.all _ (mem_of_locate hlocate).1) hsearch hshift)

/-- No student has a course in two slots. -/
def SlotsNodup (students : List Student) : Prop := ∀ student ∈ students, student.listed.Nodup

theorem SlotsNodup.set {students : List Student} (h : SlotsNodup students) {student' : Student}
    (hnodup : student'.listed.Nodup) (pos : Nat) : SlotsNodup (students.set pos student') := by
  intro student hstudent
  obtain hstudent | rfl := List.mem_or_eq_of_mem_set hstudent
  · exact h student hstudent
  · exact hnodup

theorem SlotsNodup.enrollIn {students : List Student} (h : SlotsNodup students)
    {courses : Option (List Course)} {out : Int × List Student × Option (List Course)}
    (hout : enrollIn studentId courseId students courses = some out) : SlotsNodup out.2.1 := by
  cases enrolls_of_eq hout with
  | refused => exact h
  | enrolled hlocate _ hholds hempty hslots _ hcourse =>
    have hne := ne_empty_of_emptySlot hholds hempty
    refine h.set ?_ _
    rw [(listed_enroll (length_of_locate_course hcourse) hne hslots hempty).nodup_iff]
    refine List.nodup_cons.mpr ⟨fun hmem => ?_, h _ (mem_of_locate hlocate).1⟩
    rw [(mem_listed hne).mp hmem] at hholds
    cases hholds

theorem SlotsNodup.unenrollIn {students : List Student} (h : SlotsNodup students)
    {out : Int × List Student} (hout : unenrollIn studentId courseId students = some out) :
    SlotsNodup out.2 := by
  cases unlists_of_eq hout with
  | missing | absent => exact h
  | removed hlocate hfind hslots =>
    exact h.set (nodup_listed_unenroll (h _ (mem_of_locate hlocate).1) hslots hfind) _

end Sections

namespace Tables

/-- The records of `students.dat`. -/
def studentRecords (t : Tables) : List Student := t.students.getD []

/-- The records of `courses.dat`. -/
def courseRecords (t : Tables) : List Course := t.courses.getD []

/-- No course id, no student in a roster and no course of a student occurs twice, and rosters
are within their arrays. -/
structure Sound (t : Tables) : Prop where
  courses : CoursesAre Course.Sound t.courseRecords
  slots : SlotsNodup t.studentRecords

/-- No course has more students than seats, or more seats than its array has entries. -/
def Seated (t : Tables) : Prop := CoursesAre Course.Seated t.courseRecords

/-- No comparison with these ids of a student and of a course leaves an array of the files. -/
structure Within (t : Tables) (studentId courseId : CString) : Prop where
  students : ∀ student ∈ t.studentRecords, ¬ student.id.Overrun studentId
  slots : ∀ student ∈ t.studentRecords, ∀ slot ∈ student.enrolledCourses.toList,
    ¬ slot.Overrun courseId
  courses : ∀ course ∈ t.courseRecords, ¬ course.id.Overrun courseId
  entries : ∀ course ∈ t.courseRecords, ∀ entry ∈ course.entries, ¬ entry.Overrun studentId

/-- Ids that leave room for their NULs stay within all arrays. -/
theorem within_of_lt {studentId courseId : CString} (hs : studentId.length < maxId)
    (hc : courseId.length < maxId) (t : Tables) : t.Within studentId courseId where
  students student _ := CArray.not_overrun_of_lt hs student.id
  slots _ _ slot _ := CArray.not_overrun_of_lt hc slot
  courses course _ := CArray.not_overrun_of_lt hc course.id
  entries _ _ entry _ := CArray.not_overrun_of_lt hs entry

/-- All checks of `enroll_course` pass. -/
structure Accepts (t : Tables) (studentId courseId : CString) (student : Student)
    (course : Course) : Prop where
  findStudent : t.studentRecords.find? (Student.hasId studentId) = some student
  active : student.active ≠ 0
  unlisted : student.holds courseId = false
  slot : ∃ slot ∈ student.enrolledCourses.toList, slot.toList.head? = some 0
  findCourse : t.courseRecords.find? (Course.hasId courseId) = some course
  seat : course.enrolledCount < course.totalSeats
  absent : studentId ∉ course.roster

variable {t t' : Tables} {code : Int}

/-- A section on `students.dat` leaves `courses.dat` as it is. -/
theorem courseRecords_onStudents {f : List Student → Option (Int × List Student)}
    (h : t.onStudents f = some (code, t')) : t'.courses = t.courses := by
  unfold onStudents at h
  split at h
  · cases h
    rfl
  · obtain ⟨out, -, hout⟩ := Option.map_eq_some_iff.mp h
    cases hout
    rfl

/-- A section on `courses.dat` leaves `students.dat` as it is. -/
theorem studentRecords_onCourses {f : List Course → Option (Int × List Course)}
    (h : t.onCourses f = some (code, t')) : t'.students = t.students := by
  unfold onCourses at h
  split at h
  · cases h
    rfl
  · obtain ⟨out, -, hout⟩ := Option.map_eq_some_iff.mp h
    cases hout
    rfl

/-- Where a section on `students.dat` gets from. -/
theorem onStudents_cases {f : List Student → Option (Int × List Student)}
    (h : t.onStudents f = some (code, t')) :
    (t.students = none ∧ t' = t) ∨ ∃ records out, t.students = some records ∧
      f records = some out ∧ t' = { t with students := some out.2 } := by
  unfold onStudents at h
  split at h
  · next hnone =>
    cases h
    exact Or.inl ⟨hnone, rfl⟩
  · next records hrecords =>
    obtain ⟨out, hout, heq⟩ := Option.map_eq_some_iff.mp h
    cases heq
    exact Or.inr ⟨records, out, hrecords, hout, rfl⟩

/-- What `remove_course` does with the contents, if it returns. -/
theorem remove_cases {id : CString} (h : t.remove id = some (code, t')) :
    (t.courses = none ∧ code = -1 ∧ t' = t) ∨ ∃ records, t.courses = some records ∧
      code = (if records.any (Course.hasId id) then 0 else -1) ∧
      t' = ⟨t.students.map (List.map (·.clear id)), some (others id records)⟩ := by
  unfold remove at h
  split at h
  · next hnone =>
    cases h
    exact .inl ⟨hnone, rfl, rfl⟩
  · next records hrecords =>
    obtain ⟨out, hout, h⟩ := Option.bind_eq_some_iff.mp h
    obtain ⟨students, hstudents, heq⟩ := Option.map_eq_some_iff.mp h
    cases removeFrom_eq hout
    cases heq
    refine .inr ⟨records, hrecords, rfl, ?_⟩
    cases hold : t.students with
    | none =>
      rw [hold] at hstudents
      cases hstudents
      rfl
    | some old =>
      rw [hold] at hstudents
      obtain ⟨swept, hswept, rfl⟩ := Option.map_eq_some_iff.mp hstudents
      rw [sweepIn_eq hswept]
      rfl

/-- A property of courses that every edit keeps is kept by every call. -/
theorem courses_apply {P : Course → Prop} {added updated : Int → Prop}
    (hP : KeptByEdits P added updated) (ht : CoursesAre P t.courseRecords) {call : Call}
    (hids : call.ValidIds) (hseats : call.Seats added updated)
    (h : call.apply t = some (code, t')) : CoursesAre P t'.courseRecords := by
  cases call with
  | addStudent id name =>
    cases h
    exact ht
  | updateStudent id newName | activateDeactivateStudent id activate =>
    rwa [courseRecords, courseRecords_onStudents h]
  | addCourse id name facultyId seats =>
    obtain ⟨out, hout, heq⟩ := Option.map_eq_some_iff.mp h
    cases heq
    exact ht.addCourseTo hids (hP.new _ _ _ _ hseats) hout
  | updateCourse id newName newSeats =>
    simp only [Call.apply, onCourses] at h
    split at h
    · cases h
      exact ht
    · next records hrecords =>
      obtain ⟨out, hout, heq⟩ := Option.map_eq_some_iff.mp h
      cases heq
      rw [courseRecords, hrecords] at ht
      cases overwrites_of_eq Course.hasId_of_strcmp hout with
      | missing => exact ht
      | edited hlocate hresize =>
        have hcourse := ht.all _ (mem_of_locate hlocate).1
        exact ht.set hlocate (resize_id hresize)
          (hP.resize _ _ _ _ hcourse hseats hresize)
  | removeCourse id =>
    obtain ⟨-, -, rfl⟩ | ⟨records, hrecords, -, rfl⟩ := remove_cases h
    · exact ht
    · rw [courseRecords, hrecords] at ht
      exact ht.others id
  | enrollCourse studentId courseId =>
    simp only [Call.apply, enroll] at h
    split at h
    · cases h
      exact ht
    · obtain ⟨out, hout, heq⟩ := Option.map_eq_some_iff.mp h
      cases heq
      exact ht.enrollIn hP hout
  | unenrollCourse studentId courseId =>
    simp only [Call.apply, unenroll] at h
    split at h
    · cases h
      exact ht
    · next records hrecords =>
      obtain ⟨records', hfrom, h⟩ := Option.bind_eq_some_iff.mp h
      rw [courseRecords, hrecords] at ht
      rw [courseRecords, courseRecords_onStudents h]
      exact ht.unenrollFrom hP hfrom

/-- No call puts a course twice into the slots of a student. -/
theorem slots_apply (ht : SlotsNodup t.studentRecords) {call : Call} (hids : call.ValidIds)
    (h : call.apply t = some (code, t')) : SlotsNodup t'.studentRecords := by
  have hold : ∀ {records}, t.students = some records → SlotsNodup records := by
    intro records hrecords
    rwa [studentRecords, hrecords] at ht
  cases call with
  | addStudent id name =>
    cases h
    intro student hstudent
    obtain hstudent | hstudent := List.mem_append.mp hstudent
    · exact ht student hstudent
    · rw [List.mem_singleton.mp hstudent, listed_newStudent]
      exact List.nodup_nil
  | updateStudent id newName | activateDeactivateStudent id activate =>
    obtain ⟨-, rfl⟩ | ⟨records, out, hrecords, hout, rfl⟩ := onStudents_cases h
    · exact ht
    · cases overwrites_of_eq Student.hasId_of_strcmp hout with
      | missing => exact hold hrecords
      | edited hlocate hedit =>
        cases hedit
        have hnodup := hold hrecords _ (mem_of_locate hlocate).1
        refine (hold hrecords).set ?_ _
        exact hnodup
  | addCourse id name facultyId seats =>
    obtain ⟨out, -, heq⟩ := Option.map_eq_some_iff.mp h
    cases heq
    exact ht
  | updateCourse id newName newSeats =>
    rwa [studentRecords, studentRecords_onCourses h]
  | removeCourse id =>
    -- clearing slots leaves a part of the ids
    obtain ⟨-, -, rfl⟩ | ⟨records, -, -, rfl⟩ := remove_cases h
    · exact ht
    · intro student hstudent
      cases hstudents : t.students with
      | none =>
        simp only [studentRecords, hstudents, Option.map_none, Option.getD_none] at hstudent
        cases hstudent
      | some records =>
        simp only [studentRecords, hstudents, Option.map_some, Option.getD_some] at hstudent
        obtain ⟨old, hmem, rfl⟩ := List.mem_map.mp hstudent
        rw [listed_clear hids.1]
        exact (hold hstudents old hmem).filter _
  | enrollCourse studentId courseId =>
    simp only [Call.apply, enroll] at h
    split at h
    · cases h
      exact ht
    · next records hrecords =>
      obtain ⟨out, hout, heq⟩ := Option.map_eq_some_iff.mp h
      cases heq
      exact (hold hrecords).enrollIn hout
  | unenrollCourse studentId courseId =>
    simp only [Call.apply, unenroll] at h
    split at h
    · cases h
      exact ht
    · obtain ⟨records', hfrom, h⟩ := Option.bind_eq_some_iff.mp h
      obtain ⟨-, rfl⟩ | ⟨records, out, hrecords, hout, rfl⟩ := onStudents_cases h
      · exact ht
      · exact (hold hrecords).unenrollIn hout

/-- Sound tables stay sound. -/
theorem Sound.apply (ht : t.Sound) {call : Call} (hids : call.ValidIds)
    (hseats : call.Seats (fun _ => True) InSeatRange) (h : call.apply t = some (code, t')) :
    t'.Sound :=
  ⟨courses_apply sound_keptByEdits ht.courses hids hseats h, slots_apply ht.slots hids h⟩

theorem Seated.apply (ht : t.Seated) {call : Call} (hids : call.ValidIds)
    (hseats : call.Seats InSeatRange InSeatRange) (h : call.apply t = some (code, t')) :
    t'.Seated :=
  courses_apply seated_keptByEdits ht hids hseats h

/-- An overwriting section whose search and edit have a result has one. -/
theorem exists_overwriteIn {ρ : Type} {found : ρ → Option Bool} {p : ρ → Bool}
    {edit : ρ → Option ρ} {records : List ρ}
    (hfound : locate? found records = some (locate p records))
    (hedit : ∀ r ∈ records, ∃ r', edit r = some r') :
    ∃ out, overwriteIn found edit records = some out := by
  rw [overwriteIn, hfound, Option.bind_some]
  cases hlocate : locate p records with
  | none => exact ⟨_, rfl⟩
  | some x =>
    obtain ⟨pos, r⟩ := x
    obtain ⟨r', hr'⟩ := hedit r (mem_of_locate hlocate).1
    dsimp only
    exact ⟨_, by rw [hr']; rfl⟩

theorem exists_onStudents {f : List Student → Option (Int × List Student)}
    (hf : ∀ records, t.students = some records → ∃ out, f records = some out) :
    ∃ out, t.onStudents f = some out := by
  unfold onStudents
  split
  · exact ⟨_, rfl⟩
  · next records hrecords =>
    obtain ⟨out, hout⟩ := hf records hrecords
    exact ⟨_, by rw [hout]; rfl⟩

/-- The section of `enroll_course` stays within its arrays, if the comparisons do and a course that
accepts a student has room for one. -/
theorem exists_enrollIn {studentId courseId : CString} {students : List Student}
    (hw : t.Within studentId courseId) (hstudents : t.students = some students)
    (hin : ∀ course ∈ t.courseRecords, course.InRange)
    (hroom : ∀ student course, t.Accepts studentId courseId student course →
      course.enrolledCount < maxUsers) :
    ∃ out, enrollIn studentId courseId students t.courses = some out := by
  have hrecords : t.studentRecords = students := by
    rw [studentRecords, hstudents, Option.getD_some]
  rw [enrollIn, locate?_student_of_within (hrecords ▸ hw.students), Option.bind_some]
  cases hstudent : locate (Student.hasId studentId) students with
  | none => exact ⟨_, rfl⟩
  | some x =>
    obtain ⟨spos, student⟩ := x
    have hmem : student ∈ t.studentRecords := hrecords ▸ (mem_of_locate hstudent).1
    dsimp only
    split
    · exact ⟨_, rfl⟩
    · next hactive =>
      split
      · next hscan =>
        obtain ⟨out, hout⟩ := exists_scanSlots (hw.slots student hmem) 0 none
        cases hscan.symm.trans hout
      · exact ⟨_, rfl⟩
      · exact ⟨_, rfl⟩
      · next emptySlot hscan =>
        obtain ⟨hholds, hempty⟩ := of_scanSlots hscan
        unfold enrollSlotIn
        split
        · exact ⟨_, rfl⟩
        · next records hsome =>
          have hcourses : t.courseRecords = records := by
            rw [courseRecords, hsome, Option.getD_some]
          rw [locate?_course_of_within (hcourses ▸ hw.courses), Option.bind_some]
          cases hcourse : locate (Course.hasId courseId) records with
          | none => exact ⟨_, rfl⟩
          | some y =>
            obtain ⟨cpos, course⟩ := y
            have hmem' : course ∈ t.courseRecords := hcourses ▸ (mem_of_locate hcourse).1
            have hcount := hin course hmem'
            dsimp only
            split
            · exact ⟨_, rfl⟩
            · next hlt =>
              rw [search_roster_of_within hcount (hw.entries course hmem')]
              cases hfind : course.roster.findIdx? (· = studentId) with
              | some i => exact ⟨_, rfl⟩
              | none =>
                have habsent : studentId ∉ course.roster := fun hon => by
                  simpa using List.findIdx?_eq_none_iff.mp hfind studentId hon
                obtain ⟨hslot, hhead, -⟩ := List.findIdx?_eq_some_iff_getElem.mp hempty
                have haccepts : t.Accepts studentId courseId student course :=
                  ⟨by rw [hrecords, find?_of_locate hstudent],
                    hactive, hholds, ⟨_, List.getElem_mem hslot, by simpa using hhead⟩,
                    by rw [hcourses, find?_of_locate hcourse], Int.not_le.mp hlt,
                    habsent⟩
                -- both writes are within their arrays
                have hless := hroom _ _ haccepts
                rw [student.enrolledCourses.length_toList] at hslot
                obtain ⟨slots, hslots, -⟩ := student.enrolledCourses.exists_set? hslot
                  (strncpy maxId courseId)
                obtain ⟨k, hk⟩ := Int.eq_ofNat_of_zero_le hcount.1
                obtain ⟨roster, hroster, -⟩ := course.enrolledStudents.exists_set? (i := k)
                  (by omega) (strncpy maxId studentId)
                rw [← hk] at hroster
                simp only [Option.map_none, hslots, Option.bind_some, hroster, Option.map_some]
                exact ⟨_, rfl⟩

theorem exists_unenrollFrom {studentId courseId : CString} {records : List Course}
    (hids : ∀ course ∈ records, ¬ course.id.Overrun courseId)
    (hentries : ∀ course, records.find? (Course.hasId courseId) = some course →
      ∀ entry ∈ course.entries, ¬ entry.Overrun studentId)
    (hinRange : ∀ course ∈ records, course.InRange) :
    ∃ records', unenrollFrom studentId courseId records = some records' := by
  rw [unenrollFrom, locate?_course_of_within hids, Option.bind_some]
  cases hcourse : locate (Course.hasId courseId) records with
  | none => exact ⟨_, rfl⟩
  | some x =>
    obtain ⟨pos, course⟩ := x
    have hmem := (mem_of_locate hcourse).1
    have hin := hinRange course hmem
    dsimp only
    cases hsearch : course.enrolledStudents.search (strcmpEntry studentId) 0
        course.enrolledCount.toNat with
    | none =>
      rw [search_roster_of_within hin (hentries course (find?_of_locate hcourse))] at hsearch
      cases hsearch
    | some found =>
      cases found with
      | none => exact ⟨_, rfl⟩
      | some i =>
        obtain ⟨k, rfl, hk, -⟩ := roster_of_search hin hsearch
        obtain ⟨roster, hshift, -⟩ := roster_shift hin hk
        dsimp only
        exact ⟨_, by rw [hshift]; rfl⟩

theorem exists_unenrollIn {studentId courseId : CString} {records : List Student}
    (hids : ∀ student ∈ records, ¬ student.id.Overrun studentId)
    (hslots : ∀ student ∈ records, ∀ slot ∈ student.enrolledCourses.toList,
      ¬ slot.Overrun courseId) : ∃ out, unenrollIn studentId courseId records = some out := by
  rw [unenrollIn, locate?_student_of_within hids, Option.bind_some]
  cases hstudent : locate (Student.hasId studentId) records with
  | none => exact ⟨_, rfl⟩
  | some x =>
    obtain ⟨pos, student⟩ := x
    dsimp only
    rw [locate?_entry_of_within (hslots student (mem_of_locate hstudent).1), Option.bind_some]
    cases hslot : locate (entryIs courseId) student.enrolledCourses.toList with
    | none => exact ⟨_, rfl⟩
    | some y =>
      obtain ⟨i, slot⟩ := y
      obtain ⟨hi, -⟩ := List.getElem?_eq_some_iff.mp (getElem?_of_locate hslot)
      rw [student.enrolledCourses.length_toList] at hi
      obtain ⟨slots, hset, -⟩ := student.enrolledCourses.exists_set? hi zeros
      dsimp only
      exact ⟨_, by rw [hset]; rfl⟩

theorem exists_remove {id : CString}
    (hids : ∀ course ∈ t.courseRecords, ¬ course.id.Overrun id)
    (hslots : ∀ student ∈ t.studentRecords, ∀ slot ∈ student.enrolledCourses.toList,
      ¬ slot.Overrun id) : ∃ out, t.remove id = some out := by
  unfold remove
  split
  · exact ⟨_, rfl⟩
  · next records hrecords =>
    rw [courseRecords, hrecords, Option.getD_some] at hids
    rw [removeFrom, locate?_course_of_within hids]
    cases hstudents : t.students with
    | none => exact ⟨_, rfl⟩
    | some students =>
      rw [studentRecords, hstudents, Option.getD_some] at hslots
      rw [sweepStudents, sweepIn_of_within hslots]
      exact ⟨_, rfl⟩

end Tables

/-- The ids of a student and of a course that the call compares with those in the files. -/
def Call.comparedIds : Call → CString × CString
  | .addStudent _ _ => (.empty, .empty)
  | .updateStudent id _ | .activateDeactivateStudent id _ => (id, .empty)
  | .addCourse id _ _ _ | .updateCourse id _ _ | .removeCourse id => (.empty, id)
  | .enrollCourse studentId courseId | .unenrollCourse studentId courseId => (studentId, courseId)

/-- No comparison of the call leaves an array of the files. -/
def Call.Within (t : Tables) (call : Call) : Prop := t.Within call.comparedIds.1 call.comparedIds.2

theorem Call.ValidIds.within {call : Call} (h : call.ValidIds) (t : Tables) : call.Within t := by
  have hempty : CString.empty.length < maxId := by decide
  cases call with
  | addStudent => exact Tables.within_of_lt hempty hempty t
  | updateStudent | activateDeactivateStudent => exact Tables.within_of_lt h.2 hempty t
  | addCourse | updateCourse | removeCourse => exact Tables.within_of_lt hempty h.2 t
  | enrollCourse | unenrollCourse => exact Tables.within_of_lt h.1.2 h.2.2 t

namespace Tables

variable {t t' : Tables} {code : Int}

/-- All counts are between 0 and `MAX_USERS`. -/
def InRange (t : Tables) : Prop := ∀ course ∈ t.courseRecords, course.InRange

theorem exists_updateCourse {id : CString} {newSeats : Int} (hin : t.InRange)
    (hids : ∀ course ∈ t.courseRecords, ¬ course.id.Overrun id)
    (hseats : (t.courseRecords.find? (Course.hasId id)).isSome → 0 ≤ newSeats)
    (newName : CString) : ∃ out, Call.apply (.updateCourse id newName newSeats) t = some out := by
  simp only [Call.apply, onCourses]
  split
  · exact ⟨_, rfl⟩
  · next records hrecords =>
    have hcourses : t.courseRecords = records := by rw [courseRecords, hrecords, Option.getD_some]
    rw [InRange, hcourses] at hin
    rw [hcourses] at hids hseats
    rw [overwriteIn, locate?_course_of_within hids, Option.bind_some]
    cases hlocate : locate (Course.hasId id) records with
    | none => exact ⟨_, rfl⟩
    | some x =>
      obtain ⟨pos, course⟩ := x
      have h₀ := hseats (by rw [find?_of_locate hlocate]; rfl)
      obtain ⟨course', hresize, -⟩ :=
        roster_resize (hin course (mem_of_locate hlocate).1) newName h₀
      dsimp only
      exact ⟨_, by rw [hresize]; rfl⟩

theorem exists_unenroll {studentId courseId : CString} (hin : t.InRange)
    (hw : t.Within studentId courseId) : ∃ out, t.unenroll studentId courseId = some out := by
  unfold unenroll
  split
  · exact ⟨_, rfl⟩
  · next records hrecords =>
    have hcourses : t.courseRecords = records := by rw [courseRecords, hrecords, Option.getD_some]
    obtain ⟨hids, hslots, hcourseIds, hentries⟩ := hw
    rw [InRange, hcourses] at hin
    rw [hcourses] at hcourseIds hentries
    obtain ⟨records', hfrom⟩ := exists_unenrollFrom hcourseIds
      (fun course hfind => hentries course (List.mem_of_find?_eq_some hfind)) hin
    have hstudents : ∀ {students}, t.students = some students → t.studentRecords = students :=
      fun h => by rw [studentRecords, h, Option.getD_some]
    obtain ⟨out, hout⟩ := exists_onStudents (t := { t with courses := some records' })
      (f := unenrollIn studentId courseId) fun students hsome =>
        exists_unenrollIn (hstudents hsome ▸ hids) (hstudents hsome ▸ hslots)
    exact ⟨out, by rw [hfrom, Option.bind_some, hout]⟩

/-- A call has a result if its comparisons stay within the arrays, an `update_course` gives no
negative number of seats to a course, and an enrolment that is accepted has room. -/
theorem exists_apply_of_within (hin : t.InRange) {call : Call} (hw : call.Within t)
    (hseats : ∀ id newName newSeats, call = .updateCourse id newName newSeats →
      (t.courseRecords.find? (Course.hasId id)).isSome → 0 ≤ newSeats)
    (hroom : ∀ studentId courseId, call = .enrollCourse studentId courseId →
      ∀ student course, t.Accepts studentId courseId student course →
        course.enrolledCount < maxUsers) : ∃ out, call.apply t = some out := by
  have hstudents : ∀ {records}, t.students = some records → t.studentRecords = records :=
    fun h => by rw [studentRecords, h, Option.getD_some]
  cases call with
  | addStudent => exact ⟨_, rfl⟩
  | addCourse id name facultyId seats =>
    have hids : ∀ course ∈ t.courses.getD [], ¬ course.id.Overrun id := hw.courses
    rw [Call.apply, addCourseTo, locate?_course_of_within hids]
    exact ⟨_, rfl⟩
  | removeCourse id => exact exists_remove hw.courses hw.slots
  | updateStudent | activateDeactivateStudent =>
    exact exists_onStudents fun records hrecords =>
      exists_overwriteIn (locate?_student_of_within (hstudents hrecords ▸ hw.students))
        fun r _ => ⟨_, rfl⟩
  | updateCourse id newName newSeats =>
    exact exists_updateCourse hin hw.courses (hseats id newName newSeats rfl) newName
  | enrollCourse studentId courseId =>
    simp only [Call.apply, enroll]
    split
    · exact ⟨_, rfl⟩
    · next students hsome =>
      have hids : t.Within studentId courseId := hw
      obtain ⟨out, hout⟩ := exists_enrollIn hids hsome hin (hroom studentId courseId rfl)
      exact ⟨_, by rw [hout]; rfl⟩
  | unenrollCourse studentId courseId => exact exists_unenroll hin hw

/-- With valid ids and seats within the array, no call leaves an array. -/
theorem exists_apply (hseated : t.Seated) {call : Call} (hids : call.ValidIds)
    (hseats : call.Seats InSeatRange InSeatRange) : ∃ out, call.apply t = some out := by
  refine exists_apply_of_within (fun course hcourse => (hseated.all course hcourse).inRange)
    (hids.within t) (fun id newName newSeats hcall _ => ?_)
    fun studentId courseId _ student course haccepts => ?_
  · subst hcall
    exact hseats.1
  · have hcourse := hseated.all course (List.mem_of_find?_eq_some haccepts.findCourse)
    exact lt_of_lt_of_le haccepts.seat hcourse.le_max

end Tables

/-! ## Runs of complete calls -/

namespace Disk

variable {d d' : Disk} {call : Call}

/-- The files after a complete call, if it leaves no array. -/
def perform (d : Disk) (call : Call) : Option Disk := (d.execute call.program).map (·.2)

/-- The files after complete calls, one after another. -/
def performAll (d : Disk) (calls : List Call) : Option Disk := calls.foldlM perform d

theorem perform_of_apply {code : Int} {t : Tables} (h : call.apply d.tables = some (code, t)) :
    ∃ d', d.perform call = some d' ∧ d'.tables = t := by
  have htables : _ = _ := computes_call (d := d) call
  rw [h] at htables
  obtain ⟨⟨code', d'⟩, hrun, hout⟩ := Option.map_eq_some_iff.mp htables
  cases hout
  exact ⟨d', by rw [perform, hrun]; rfl, rfl⟩

theorem apply_of_perform (h : d.perform call = some d') :
    ∃ code, call.apply d.tables = some (code, d'.tables) := by
  obtain ⟨⟨code, d''⟩, hrun, rfl⟩ := Option.map_eq_some_iff.mp h
  have htables : _ = _ := computes_call (d := d) call
  refine ⟨code, ?_⟩
  rw [← htables, hrun]
  rfl

/-- Course ids, rosters and slots without duplicates, and as many students as seats at most. -/
structure RosterWellFormed (d : Disk) : Prop where
  ids : (d.tables.courseRecords.map (·.id.str)).Nodup
  counts : ∀ course ∈ d.tables.courseRecords,
    0 ≤ course.enrolledCount ∧ course.enrolledCount ≤ course.totalSeats
  rosters : ∀ course ∈ d.tables.courseRecords, course.roster.Nodup
  slots : ∀ student ∈ d.tables.studentRecords, student.listed.Nodup

/-- Complete calls with seat counts within the array, one after another, from tables that are
sound. -/
theorem exists_performAll (calls : List Call)
    (hvalid : ∀ call ∈ calls, call.ValidIds ∧ call.Seats InSeatRange InSeatRange)
    (hsound : d.tables.Sound) (hseated : d.tables.Seated) :
    ∃ d', d.performAll calls = some d' ∧ d'.tables.Sound ∧ d'.tables.Seated := by
  induction calls generalizing d with
  | nil => exact ⟨d, rfl, hsound, hseated⟩
  | cons call calls ih =>
    obtain ⟨hids, hseats⟩ := hvalid call List.mem_cons_self
    obtain ⟨⟨code, t⟩, happly⟩ := Tables.exists_apply hseated hids hseats
    obtain ⟨d₁, hperform, rfl⟩ := perform_of_apply happly
    have hsound₁ := hsound.apply hids hseats.weaken happly
    have hseated₁ := hseated.apply hids hseats happly
    obtain ⟨d', hall, hd'⟩ := ih (fun c hc => hvalid c (List.mem_cons_of_mem _ hc))
      hsound₁ hseated₁
    exact ⟨d', by rw [performAll, List.foldlM_cons, hperform]; exact hall, hd'⟩

theorem sound_empty : empty.tables.Sound := ⟨coursesAre_nil, fun _ h => by cases h⟩

theorem seated_empty : empty.tables.Seated := coursesAre_nil

/-- After every sequence of complete calls from empty files, the tables are well-formed; no call
leaves an array on the way. -/
theorem performAll_rosterWellFormed (calls : List Call)
    (hvalid : ∀ call ∈ calls, call.ValidIds ∧ call.Seats InSeatRange InSeatRange) :
    ∃ d, empty.performAll calls = some d ∧ d.RosterWellFormed := by
  obtain ⟨d, hall, hsound, hseated⟩ := exists_performAll calls hvalid sound_empty seated_empty
  exact ⟨d, hall, hsound.courses.ids, fun course hcourse =>
    ⟨(hseated.all course hcourse).nonneg, (hseated.all course hcourse).le_seats⟩,
    fun course hcourse => (hsound.courses.all course hcourse).nodup, hsound.slots⟩

/-- A course whose only seat is taken, given back and taken away. -/
theorem performAll_rosterWellFormed_lastSeat :
    ∃ d, empty.performAll
      [.addStudent (.ofString "s1") (.ofString "Ann"),
        .addCourse (.ofString "c1") (.ofString "Logic") (.ofString "f1") 1,
        .enrollCourse (.ofString "s1") (.ofString "c1"),
        .updateCourse (.ofString "c1") (.ofString "Logic") 0,
        .unenrollCourse (.ofString "s1") (.ofString "c1")] = some d ∧ d.RosterWellFormed :=
  performAll_rosterWellFormed _ (by decide +kernel)

end Disk

end AcademiaCr.Academia
