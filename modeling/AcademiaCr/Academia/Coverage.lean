import AcademiaCr.Academia.Agreement

/-!
# Rosters are covered by slots

The files after any complete calls, whatever ids they are given. A student on the roster of a
course has it in a slot, and a course in a slot exists. The converse of the first fails after
`update_course` has cut a roster. For an id that several records have, the first one counts.

## Main definitions

- `Covered`: the invariant, on the records of the two files
- `Covered.setStudent`, `Covered.setCourse`: the edits of one record that keep it
- `rostersCovered_of_run`: the files after every run
-/

namespace AcademiaCr.Academia

open CLang RecordFile Transition

/-- Rosters are within their arrays and have nobody twice. A course in a slot exists, and a
student on a roster has the course in a slot. -/
structure Covered (students : List Student) (courses : List Course) : Prop where
  sound : ∀ course ∈ courses, course.Sound
  listed : ∀ student ∈ students, ∀ c ∈ student.listed,
    ∃ course, courses.find? (Course.hasId c) = some course
  rosters : ∀ c course, courses.find? (Course.hasId c) = some course → ∀ s ∈ course.roster,
    ∃ student, students.find? (Student.hasId s) = some student ∧ c ∈ student.listed

section Slots

variable {student : Student} {id c : CString}

/-- Clearing an id from the slots, even the empty one. -/
theorem mem_listed_clear : c ∈ (student.clear id).listed ↔ c ∈ student.listed ∧ c ≠ id := by
  by_cases hid : id = .empty
  · subst hid
    have hlisted : (student.clear .empty).listed = student.listed := by
      have hstr : student.enrolledCourses.toList.map
          (CArray.str ∘ fun slot => if slot.str = .empty then zeros else slot) =
          student.enrolledCourses.toList.map CArray.str := by
        refine List.map_congr_left fun slot _ => ?_
        by_cases h : slot.str = .empty <;> simp [h]
      rw [Student.listed, Student.listed, Student.clear, CArray.map, List.map_map, hstr]
    rw [hlisted]
    refine ⟨fun h => ⟨h, ?_⟩, fun h => h.1⟩
    simpa using (List.mem_filter.mp h).2
  · rw [listed_clear hid, List.mem_filter]
    simp

/-- Clearing one slot with a course leaves the others. -/
theorem mem_listed_unenroll {slots : CArray Id maxCourses} {i : Nat}
    (hset : student.enrolledCourses.set? i zeros = some slots)
    (hfound : student.enrolledCourses.toList.findIdx? (entryIs id) = some i) :
    (c ∈ ({ student with enrolledCourses := slots } : Student).listed → c ∈ student.listed) ∧
      (c ∈ student.listed → c ≠ id →
        c ∈ ({ student with enrolledCourses := slots } : Student).listed) := by
  by_cases hid : id = .empty
  · have hperm := listed_unenroll_empty hset (hid ▸ hfound)
    exact ⟨hperm.mem_iff.mp, fun h _ => hperm.mem_iff.mpr h⟩
  · have hperm := listed_unenroll hid hset hfound
    refine ⟨fun h => hperm.mem_iff.mpr (List.mem_cons_of_mem _ h), fun h hne => ?_⟩
    obtain heq | h := List.mem_cons.mp (hperm.mem_iff.mp h)
    · exact absurd heq hne
    · exact h

end Slots

namespace Covered

variable {students : List Student} {courses : List Course} {s c id : CString} {pos : Nat}

theorem nil : Covered [] [] := by
  constructor <;> simp

/-! ## Edits of `students.dat` -/

theorem addStudent (h : Covered students courses) (id name : CString) :
    Covered (students ++ [newStudent id name]) courses where
  sound := h.sound
  listed := by
    intro student hstudent c hc
    obtain hstudent | hstudent := List.mem_append.mp hstudent
    · exact h.listed student hstudent c hc
    · rw [List.mem_singleton.mp hstudent, listed_newStudent] at hc
      cases hc
  rosters := by
    intro c course hcourse s hs
    obtain ⟨student, hfind, hlisted⟩ := h.rosters c course hcourse s hs
    exact ⟨student, by rw [List.find?_append, hfind, Option.some_or], hlisted⟩

/-- Other slots for the first record of a student: new courses exist, and no course is lost that
has the student on its roster. -/
theorem setStudent (h : Covered students courses) {student student' : Student}
    (hlocate : locate (Student.hasId s) students = some (pos, student))
    (hid : student'.id = student.id)
    (hnew : ∀ c ∈ student'.listed, ∃ course, courses.find? (Course.hasId c) = some course)
    (hkept : ∀ c course, courses.find? (Course.hasId c) = some course → s ∈ course.roster →
      c ∈ student.listed → c ∈ student'.listed) :
    Covered (students.set pos student') courses where
  sound := h.sound
  listed := by
    intro x hx c hc
    obtain hx | rfl := List.mem_or_eq_of_mem_set hx
    · exact h.listed x hx c hc
    · exact hnew c hc
  rosters := by
    intro c course hcourse s' hs'
    obtain ⟨found, hfind, hlisted⟩ := h.rosters c course hcourse s' hs'
    by_cases hs : s' = s
    · subst hs
      have hfound : found = student :=
        Option.some.inj (hfind.symm.trans (find?_of_locate hlocate))
      subst hfound
      exact ⟨student', find?_setStudent_self hlocate hid, hkept c course hcourse hs' hlisted⟩
    · exact ⟨found, (find?_setStudent_other hlocate hid hs).trans hfind, hlisted⟩

/-! ## Edits of `courses.dat` -/

theorem addCourse (h : Covered students courses) {id name facultyId : CString} {seats : Int}
    {out : Int × List Course} (hout : addCourseTo id name facultyId seats courses = some out) :
    Covered students out.2 := by
  obtain ⟨-, rfl⟩ | ⟨-, rfl⟩ := addCourseTo_cases hout
  · exact h
  · refine ⟨fun course hcourse => ?_, fun student hstudent c hc => ?_, fun c course hcourse => ?_⟩
    · obtain hcourse | hcourse := List.mem_append.mp hcourse
      · exact h.sound course hcourse
      · rw [List.mem_singleton.mp hcourse]
        exact sound_newCourse id name facultyId seats
    · obtain ⟨course, hfind⟩ := h.listed student hstudent c hc
      exact ⟨course, by rw [List.find?_append, hfind, Option.some_or]⟩
    · rw [List.find?_append, Option.or_eq_some_iff] at hcourse
      obtain hold | ⟨-, hnew⟩ := hcourse
      · exact h.rosters c course hold
      · -- the new course has an empty roster
        rw [List.mem_singleton.mp (List.mem_of_find?_eq_some hnew), roster_newCourse]
        simp

/-- Another roster for the first record of a course: everybody on it lists the course. -/
theorem setCourse (h : Covered students courses) {course course' : Course}
    (hlocate : locate (Course.hasId c) courses = some (pos, course))
    (hid : course'.id = course.id) (hsound : course'.Sound)
    (hroster : ∀ s ∈ course'.roster,
      ∃ student, students.find? (Student.hasId s) = some student ∧ c ∈ student.listed) :
    Covered students (courses.set pos course') := by
  have hself := find?_setCourse_self hlocate hid
  have hother : ∀ {c'}, c' ≠ c →
      (courses.set pos course').find? (Course.hasId c') = courses.find? (Course.hasId c') :=
    find?_setCourse_other hlocate hid
  refine ⟨fun x hx => ?_, fun student hstudent c' hc' => ?_, fun c' x hx s hs => ?_⟩
  · obtain hx | rfl := List.mem_or_eq_of_mem_set hx
    · exact h.sound x hx
    · exact hsound
  · by_cases hne : c' = c
    · exact ⟨course', hne ▸ hself⟩
    · obtain ⟨found, hfind⟩ := h.listed student hstudent c' hc'
      exact ⟨found, (hother hne).trans hfind⟩
  · by_cases hne : c' = c
    · subst hne
      cases hx.symm.trans hself
      exact hroster s hs
    · exact h.rosters c' x ((hother hne).symm.trans hx) s hs

/-- A course and its id in the slots go together. -/
theorem remove (h : Covered students courses) (id : CString) :
    Covered (students.map (·.clear id)) (others id courses) := by
  have hfind : ∀ {c}, c ≠ id →
      (others id courses).find? (Course.hasId c) = courses.find? (Course.hasId c) := by
    intro c hne
    rw [others, List.find?_filter]
    refine congrArg (fun p => courses.find? p) (funext fun course => ?_)
    by_cases hc : course.hasId c = true
    · have hid : course.id.str = c := by simpa [Course.hasId] using hc
      simp [Course.hasId, hid, hne]
    · simp [hc]
  have hne : ∀ {c course}, (others id courses).find? (Course.hasId c) = some course → c ≠ id := by
    rintro c course hcourse rfl
    have hhas := List.find?_some hcourse
    have hmem := (List.mem_filter.mp (List.mem_of_find?_eq_some hcourse)).2
    simp [hhas] at hmem
  refine ⟨fun course hcourse => h.sound course (List.mem_of_mem_filter hcourse),
    fun student hstudent c hc => ?_, fun c course hcourse s hs => ?_⟩
  · obtain ⟨old, hold, rfl⟩ := List.mem_map.mp hstudent
    obtain ⟨hlisted, hcid⟩ := mem_listed_clear.mp hc
    rw [hfind hcid]
    exact h.listed old hold c hlisted
  · have hcid := hne hcourse
    rw [hfind hcid] at hcourse
    obtain ⟨student, hstudent, hlisted⟩ := h.rosters c course hcourse s hs
    refine ⟨student.clear id, ?_, mem_listed_clear.mpr ⟨hlisted, hcid⟩⟩
    have hkey : (Student.hasId s ∘ fun student => student.clear id) = Student.hasId s := rfl
    rw [List.find?_map, hkey, hstudent, Option.map_some]

/-! ## The operations -/

/-- An edit of the first record of a student that keeps id and slots. -/
theorem overwriteStudent (h : Covered students courses) {edit : Student → Option Student}
    (hedit : ∀ student student', edit student = some student' →
      student'.id = student.id ∧ student'.enrolledCourses = student.enrolledCourses)
    {out : Int × List Student} (hout : overwriteIn (Student.strcmpId id) edit students = some out) :
    Covered out.2 courses := by
  cases overwrites_of_eq Student.hasId_of_strcmp hout with
  | missing => exact h
  | @edited pos student student' hlocate hr =>
    obtain ⟨hid, hslots⟩ := hedit _ _ hr
    have hlisted : student'.listed = student.listed := by
      rw [Student.listed, hslots, Student.listed]
    refine h.setStudent hlocate hid (fun c hc => ?_) fun c course _ _ hc => ?_
    · exact h.listed student (mem_of_locate hlocate).1 c (hlisted ▸ hc)
    · rwa [hlisted]

theorem updateCourse (h : Covered students courses) {newName : CString} {newSeats : Int}
    (hseats : 0 ≤ newSeats) {out : Int × List Course}
    (hout : overwriteIn (Course.strcmpId id) (fun course => course.resize newName newSeats)
      courses = some out) : Covered students out.2 := by
  cases overwrites_of_eq Course.hasId_of_strcmp hout with
  | missing => exact h
  | @edited pos course course' hlocate hresize =>
    have hcourse := h.sound course (mem_of_locate hlocate).1
    obtain ⟨_, hsome, hid, -, -, hroster⟩ := roster_resize hcourse.inRange newName hseats
    cases hresize.symm.trans hsome
    refine h.setCourse hlocate hid (hcourse.resize hseats hresize) fun s hs => ?_
    rw [hroster] at hs
    exact h.rosters id course (find?_of_locate hlocate) s (List.mem_of_mem_take hs)

theorem enroll (h : Covered students courses) {records : Option (List Course)}
    (hrecords : records.getD [] = courses) {out : Int × List Student × Option (List Course)}
    (hout : enrollIn s c students records = some out) : Covered out.2.1 (out.2.2.getD []) := by
  cases enrolls_of_eq hout with
  | refused =>
    rw [hrecords]
    exact h
  | @enrolled spos cpos emptySlot student course records slots roster hstudent _ hholds hempty
      hslots hcourses hcourse hlt hsearch hset =>
    rw [hcourses, Option.getD_some] at hrecords
    subst hrecords
    have hs := length_of_locate_student hstudent
    have hc := length_of_locate_course hcourse
    have hlisted := listed_enroll hc (ne_empty_of_emptySlot hholds hempty) hslots hempty
    have hsound := h.sound course (mem_of_locate hcourse).1
    -- the slot is there before the roster needs it
    have hstored :
        Covered (students.set spos { student with enrolledCourses := slots }) records := by
      refine h.setStudent hstudent rfl (fun c' hc' => ?_) fun c' x _ _ hc' => ?_
      · obtain rfl | hc' := List.mem_cons.mp (hlisted.mem_iff.mp hc')
        · exact ⟨course, find?_of_locate hcourse⟩
        · exact h.listed student (mem_of_locate hstudent).1 c' hc'
      · exact hlisted.mem_iff.mpr (List.mem_cons_of_mem _ hc')
    refine hstored.setCourse hcourse rfl (hsound.enroll hs hsearch hset) fun s' hs' => ?_
    rw [roster_enroll hs hset] at hs'
    obtain hs' | hs' := List.mem_append.mp hs'
    · exact hstored.rosters c course (find?_of_locate hcourse) s' hs'
    · rw [List.mem_singleton.mp hs']
      exact ⟨_, find?_setStudent_self hstudent rfl,
        hlisted.mem_iff.mpr List.mem_cons_self⟩

/-- The first section of `unenroll_course`. -/
theorem unenrollFrom (h : Covered students courses) {courses' : List Course}
    (hfrom : Academia.unenrollFrom s c courses = some courses') :
    Covered students courses' ∧
      ∀ course, courses'.find? (Course.hasId c) = some course → s ∉ course.roster := by
  cases unrosters_of_eq hfrom with
  | missing hlocate =>
    refine ⟨h, fun course hcourse => ?_⟩
    rw [locate_eq_none.mp hlocate] at hcourse
    cases hcourse
  | absent hlocate hsearch =>
    refine ⟨h, fun course hcourse => ?_⟩
    cases hcourse.symm.trans (find?_of_locate hlocate)
    exact notMem_roster (h.sound _ (mem_of_locate hlocate).1).inRange hsearch
  | @removed pos course i roster hlocate hsearch hshift =>
    have hsound := h.sound course (mem_of_locate hlocate).1
    obtain ⟨k, rfl, hk, hentry⟩ := roster_of_search hsound.inRange hsearch
    obtain ⟨_, hsome, hroster⟩ := roster_shift hsound.inRange hk
    cases hshift.symm.trans hsome
    have hmem := Tables.mem_eraseIdx_of_nodup hsound.nodup hk
    constructor
    · refine h.setCourse hlocate rfl (hsound.shift hsearch hshift) fun s' hs' => ?_
      rw [hroster] at hs'
      exact h.rosters c course (find?_of_locate hlocate) s' ((hmem s').mp hs').1
    · intro x hx
      cases hx.symm.trans (find?_setCourse_self hlocate rfl)
      rw [hroster]
      exact fun hs => ((hmem s).mp hs).2 hentry.symm

/-- The second section of `unenroll_course`, after the first. -/
theorem unenrollIn (h : Covered students courses)
    (hoff : ∀ course, courses.find? (Course.hasId c) = some course → s ∉ course.roster)
    {out : Int × List Student} (hout : Academia.unenrollIn s c students = some out) :
    Covered out.2 courses := by
  cases unlists_of_eq hout with
  | missing | absent => exact h
  | @removed pos i student slots hlocate hfind hset =>
    refine h.setStudent hlocate rfl (fun c' hc' => ?_) fun c' course hcourse hs hc' => ?_
    · exact h.listed student (mem_of_locate hlocate).1 c' ((mem_listed_unenroll hset hfind).1 hc')
    · refine (mem_listed_unenroll hset hfind).2 hc' fun heq => ?_
      exact hoff course (heq ▸ hcourse) hs

end Covered

/-! ## Runs -/

namespace Tables

variable {t t' : Tables} {code : Int}

/-- The invariant, on the contents of the files. -/
def Covered (t : Tables) : Prop := Academia.Covered t.studentRecords t.courseRecords

/-- Every call keeps the invariant. -/
theorem Covered.apply (ht : t.Covered) {call : Call}
    (hseats : call.Seats (fun _ => True) InSeatRange) (h : call.apply t = some (code, t')) :
    t'.Covered := by
  have hstudents : ∀ {records}, t.students = some records →
      Academia.Covered records t.courseRecords := fun hrecords => by
    rwa [Covered, studentRecords, hrecords, Option.getD_some] at ht
  have hcourses : ∀ {records}, t.courses = some records →
      Academia.Covered t.studentRecords records := fun hrecords => by
    rwa [Covered, courseRecords, hrecords, Option.getD_some] at ht
  cases call with
  | addStudent id name =>
    cases h
    exact Academia.Covered.addStudent ht id name
  | updateStudent id newName | activateDeactivateStudent id activate =>
    obtain ⟨-, rfl⟩ | ⟨records, out, hrecords, hout, rfl⟩ := onStudents_cases h
    · exact ht
    · exact (hstudents hrecords).overwriteStudent
        (fun _ _ hedit => by cases hedit; exact ⟨rfl, rfl⟩) hout
  | addCourse id name facultyId seats =>
    obtain ⟨out, hout, heq⟩ := Option.map_eq_some_iff.mp h
    cases heq
    exact Academia.Covered.addCourse ht hout
  | updateCourse id newName newSeats =>
    simp only [Call.apply, onCourses] at h
    split at h
    · cases h
      exact ht
    · next records hrecords =>
      obtain ⟨out, hout, heq⟩ := Option.map_eq_some_iff.mp h
      cases heq
      exact (hcourses hrecords).updateCourse hseats.1 hout
  | removeCourse id =>
    obtain ⟨-, -, rfl⟩ | ⟨records, hrecords, -, rfl⟩ := remove_cases h
    · exact ht
    · have hremoved := (hcourses hrecords).remove id
      show Academia.Covered ((t.students.map _).getD []) (others id records)
      cases hs : t.students with
      | none =>
        rw [studentRecords, hs] at hremoved
        exact hremoved
      | some students =>
        rw [studentRecords, hs] at hremoved
        exact hremoved
  | enrollCourse s c =>
    simp only [Call.apply, Tables.enroll] at h
    split at h
    · cases h
      exact ht
    · next students hs =>
      obtain ⟨out, hout, heq⟩ := Option.map_eq_some_iff.mp h
      cases heq
      exact (hstudents hs).enroll rfl hout
  | unenrollCourse s c =>
    simp only [Call.apply, Tables.unenroll] at h
    split at h
    · cases h
      exact ht
    · next records hrecords =>
      obtain ⟨records', hfrom, h⟩ := Option.bind_eq_some_iff.mp h
      obtain ⟨hcovered, hoff⟩ := (hcourses hrecords).unenrollFrom hfrom
      obtain ⟨-, rfl⟩ | ⟨students, out, hs, hout, rfl⟩ := onStudents_cases h
      · exact hcovered
      · have hs : t.students = some students := hs
        rw [studentRecords, hs, Option.getD_some] at hcovered
        exact hcovered.unenrollIn hoff hout

end Tables

/-- What every run of complete calls from empty files keeps. -/
theorem rostersCovered_of_run {history : List (Event Disk Call)} {d : Disk}
    (hrun : Run Disk.perform .empty history d)
    (hseats : ∀ e ∈ history, e.label.Seats (fun _ => True) InSeatRange) : d.tables.Covered := by
  refine hrun.invariant (I := fun d => d.tables.Covered)
    (A := fun e => e.label.Seats (fun _ => True) InSeatRange) Covered.nil ?_ hseats
  intro d call d' hcovered hperform hseats
  obtain ⟨code, happly⟩ := Disk.apply_of_perform hperform
  exact hcovered.apply hseats happly

end AcademiaCr.Academia
