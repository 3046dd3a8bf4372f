import AcademiaCr.Academia.WellFormed

/-!
# Agreement of the two tables

An enrolment is stored in a slot of the student and in the roster of the course. Complete calls
keep the two in agreement, except for an `update_course` that cuts a roster: it leaves the slots
of the students it removes as they are.

## Main definitions

- `listsIn`, `rostersIn`: an enrolment in the slots, and in the rosters
- `Tables.Agree`: the two are the same
- `Call.Truncates`: the call cuts a roster
-/

namespace AcademiaCr.Academia

open CLang RecordFile Transition

/-! ## The two views -/

/-- The first record of the student lists the course. -/
def listsIn (students : List Student) (s c : CString) : Bool :=
  (students.find? (Student.hasId s)).any (·.holds c)

/-- The roster of a course with the id has the student. -/
def rostersIn (courses : List Course) (s c : CString) : Bool :=
  courses.any fun course => course.hasId c && course.roster.contains s

section Views

variable {s c id : CString} {students : List Student} {courses : List Course} {pos : Nat}

/-- Course ids are different, so the first course with the id is the one that counts. -/
theorem rostersIn_eq {P : Course → Prop} (h : CoursesAre P courses) (s c : CString) :
    rostersIn courses s c = (courses.find? (Course.hasId c)).any (·.roster.contains s) := by
  have hids := h.ids
  clear h
  induction courses with
  | nil => rfl
  | cons course rest ih =>
    rw [List.map_cons, List.nodup_cons] at hids
    have ih := ih hids.2
    rw [rostersIn, List.any_cons, List.find?_cons]
    by_cases hc : course.hasId c = true
    · have hrest : rostersIn rest s c = false := by
        refine List.any_eq_false.mpr fun other hother => ?_
        have hne : other.hasId c = false := by
          by_contra hcontra
          have heq : other.id.str = course.id.str := by
            simp only [Course.hasId, decide_eq_true_eq, Bool.not_eq_false] at hc hcontra
            rw [hc, hcontra]
          exact hids.1 (heq ▸ List.mem_map_of_mem hother)
        simp [hne]
      rw [rostersIn] at hrest
      rw [hc, hrest]
      exact Bool.or_false _
    · have hfalse : course.hasId c = false := by simpa using hc
      rw [rostersIn] at ih
      rw [hfalse, ih]
      exact Bool.false_or _

theorem rostersIn_append (id name facultyId : CString) (seats : Int) :
    rostersIn (courses ++ [newCourse id name facultyId seats]) s c = rostersIn courses s c := by
  rw [rostersIn, List.any_append, List.any_cons, List.any_nil, roster_newCourse, rostersIn]
  simp

theorem rostersIn_addCourseTo {name facultyId : CString} {seats : Int} {out : Int × List Course}
    (h : addCourseTo id name facultyId seats courses = some out) :
    rostersIn out.2 s c = rostersIn courses s c := by
  obtain ⟨-, rfl⟩ | ⟨-, rfl⟩ := addCourseTo_cases h
  · rfl
  · exact rostersIn_append id name facultyId seats

/-- Another roster for one course. -/
theorem rostersIn_set {P : Course → Prop} (h : CoursesAre P courses) {course r : Course}
    (hlocate : locate (Course.hasId id) courses = some (pos, course))
    (hid : r.id = course.id) (hP : P r) :
    rostersIn (courses.set pos r) s c =
      if c = id then r.roster.contains s else rostersIn courses s c := by
  rw [rostersIn_eq (h.set hlocate hid hP), rostersIn_eq h]
  by_cases hc : c = id
  · rw [if_pos hc, hc, find?_setCourse_self hlocate hid, Option.any_some]
  · rw [if_neg hc, find?_setCourse_other hlocate hid hc]

/-- The roster of the course that is found. -/
theorem rostersIn_of_locate {P : Course → Prop} (h : CoursesAre P courses) {course : Course}
    (hlocate : locate (Course.hasId id) courses = some (pos, course)) :
    rostersIn courses s id = course.roster.contains s := by
  rw [rostersIn_eq h, find?_of_locate hlocate, Option.any_some]

theorem rostersIn_of_missing {P : Course → Prop} (h : CoursesAre P courses)
    (hlocate : locate (Course.hasId id) courses = none) : rostersIn courses s id = false := by
  rw [rostersIn_eq h, locate_eq_none.mp hlocate, Option.any_none]

theorem rostersIn_others :
    rostersIn (others id courses) s c = if c = id then false else rostersIn courses s c := by
  rw [rostersIn, others, List.any_filter]
  by_cases hc : c = id
  · rw [if_pos hc, hc]
    refine List.any_eq_false.mpr fun course _ => ?_
    cases course.hasId id <;> simp
  · rw [if_neg hc, rostersIn]
    refine congrArg courses.any (funext fun course => ?_)
    by_cases hcourse : course.hasId c = true
    · have hne : course.hasId id = false := by
        simp only [Course.hasId, decide_eq_true_eq] at hcourse
        simpa [Course.hasId, hcourse] using hc
      simp [hne]
    · simp [hcourse]

theorem listsIn_append (hc : c ≠ .empty) (id name : CString) :
    listsIn (students ++ [newStudent id name]) s c = listsIn students s c := by
  have hnew : (newStudent id name).holds c = false := by
    by_contra h
    have hmem := (mem_listed hc).mpr (by simpa using h)
    rw [listed_newStudent] at hmem
    cases hmem
  rw [listsIn, List.find?_append, listsIn]
  cases students.find? (Student.hasId s) with
  | some student => rfl
  | none =>
    rw [Option.none_or, List.find?_cons]
    split
    · rw [Option.any_some, hnew]
      rfl
    · rfl

/-- Other slots for one student. -/
theorem listsIn_set {student r : Student}
    (hlocate : locate (Student.hasId id) students = some (pos, student))
    (hid : r.id = student.id) :
    listsIn (students.set pos r) s c =
      if s = id then r.holds c else listsIn students s c := by
  rw [listsIn, listsIn]
  by_cases hs : s = id
  · rw [if_pos hs, hs, find?_setStudent_self hlocate hid, Option.any_some]
  · rw [if_neg hs, find?_setStudent_other hlocate hid hs]

/-- The slots of the student that is found. -/
theorem listsIn_of_locate {student : Student}
    (hlocate : locate (Student.hasId id) students = some (pos, student)) :
    listsIn students id c = student.holds c := by
  rw [listsIn, find?_of_locate hlocate, Option.any_some]

theorem listsIn_of_missing (hlocate : locate (Student.hasId id) students = none) :
    listsIn students id c = false := by
  rw [listsIn, locate_eq_none.mp hlocate, Option.any_none]

theorem holds_clear {student : Student} (hid : id ≠ .empty) (hc : c ≠ .empty) :
    (student.clear id).holds c = if c = id then false else student.holds c := by
  rw [Bool.eq_iff_iff, ← mem_listed hc, listed_clear hid, List.mem_filter, mem_listed hc]
  by_cases h : c = id <;> simp [h]

theorem listsIn_clear (hid : id ≠ .empty) (hc : c ≠ .empty) :
    listsIn (students.map (·.clear id)) s c =
      if c = id then false else listsIn students s c := by
  have hkey : (Student.hasId s ∘ fun student => student.clear id) = Student.hasId s := rfl
  rw [listsIn, List.find?_map, hkey, listsIn]
  cases students.find? (Student.hasId s) with
  | none => simp
  | some student => rw [Option.map_some, Option.any_some, Option.any_some, holds_clear hid hc]

/-- A student who gets a course into an empty slot. -/
theorem holds_enroll {student : Student} (hid : id.length ≤ maxId) (hne : id ≠ .empty)
    (hc : c ≠ .empty)
    {slots : CArray Id maxCourses} {i : Nat}
    (hset : student.enrolledCourses.set? i (strncpy maxId id) = some slots)
    (hempty : (student.enrolledCourses.toList.findIdx? fun slot => slot.toList.head? = some 0) =
      some i) :
    ({ student with enrolledCourses := slots } : Student).holds c =
      if c = id then true else student.holds c := by
  rw [Bool.eq_iff_iff, ← mem_listed hc,
    (listed_enroll hid hne hset hempty).mem_iff, List.mem_cons, mem_listed hc]
  by_cases h : c = id <;> simp [h]

/-- A student who loses a course from the first slot that holds it. -/
theorem holds_unenroll {student : Student} (hid : id ≠ .empty) (hc : c ≠ .empty)
    (hnodup : student.listed.Nodup) {slots : CArray Id maxCourses} {i : Nat}
    (hset : student.enrolledCourses.set? i zeros = some slots)
    (hfound : student.enrolledCourses.toList.findIdx? (entryIs id) = some i) :
    ({ student with enrolledCourses := slots } : Student).holds c =
      if c = id then false else student.holds c := by
  have hperm := listed_unenroll hid hset hfound
  rw [hperm.nodup_iff, List.nodup_cons] at hnodup
  by_cases h : c = id
  · rw [if_pos h, h, Bool.eq_false_iff, ne_eq, ← mem_listed hid]
    exact hnodup.1
  · rw [if_neg h, Bool.eq_iff_iff, ← mem_listed hc, ← @mem_listed student c hc,
      hperm.mem_iff, List.mem_cons]
    simp [h]

end Views

/-! ## Agreement -/

/-- The slots of the students and the rosters of the courses store the same enrolments. -/
def Tables.Agree (t : Tables) : Prop :=
  ∀ s c, c ≠ .empty → listsIn t.studentRecords s c = rostersIn t.courseRecords s c

/-- The call is an `update_course` that gives its course fewer seats than it has students. -/
def Call.Truncates (t : Tables) : Call → Prop
  | .updateCourse id _ newSeats =>
    ∃ course, t.courseRecords.find? (Course.hasId id) = some course ∧
      newSeats < course.enrolledCount
  | _ => False

namespace Tables

variable {t t' : Tables} {code : Int} {s c : CString}

/-- An edit of one student that keeps the slots. -/
theorem listsIn_overwrite {students : List Student} {id : CString}
    {edit : Student → Option Student} {out : Int × List Student}
    (hedit : ∀ student student', edit student = some student' →
      student'.id = student.id ∧ student'.enrolledCourses = student.enrolledCourses)
    (h : overwriteIn (Student.strcmpId id) edit students = some out) :
    listsIn out.2 s c = listsIn students s c := by
  cases overwrites_of_eq Student.hasId_of_strcmp h with
  | missing => rfl
  | edited hlocate hr =>
    obtain ⟨hid, hslots⟩ := hedit _ _ hr
    rw [listsIn_set hlocate hid]
    by_cases hs : s = id
    · rw [if_pos hs, hs, listsIn_of_locate hlocate, Student.holds, hslots, Student.holds]
    · rw [if_neg hs]

theorem Agree.overwriteStudent (hagree : t.Agree) {id : CString}
    {edit : Student → Option Student}
    (hedit : ∀ student student', edit student = some student' →
      student'.id = student.id ∧ student'.enrolledCourses = student.enrolledCourses)
    (h : t.onStudents (overwriteIn (Student.strcmpId id) edit) = some (code, t')) : t'.Agree := by
  obtain ⟨-, rfl⟩ | ⟨records, out, hrecords, hout, rfl⟩ := onStudents_cases h
  · exact hagree
  · intro s c hc
    have hold := hagree s c hc
    rw [studentRecords, hrecords] at hold
    exact (listsIn_overwrite hedit hout).trans hold

/-- `enroll_course` adds the enrolment to both views, or changes neither. -/
theorem enroll_views (ht : t.Sound)
    (h : t.enroll s c = some (code, t')) :
    (t' = t ∧ code ≠ 0) ∨
    (code = 0 ∧ listsIn t.studentRecords s c = false ∧ rostersIn t.courseRecords s c = false ∧
      ∀ s' c', c' ≠ .empty →
        listsIn t'.studentRecords s' c' =
          (if s' = s ∧ c' = c then true else listsIn t.studentRecords s' c') ∧
        rostersIn t'.courseRecords s' c' =
          (if s' = s ∧ c' = c then true else rostersIn t.courseRecords s' c')) := by
  unfold enroll at h
  split at h
  · cases h
    exact Or.inl ⟨rfl, by decide⟩
  · next students hstudents =>
    obtain ⟨out, hout, heq⟩ := Option.map_eq_some_iff.mp h
    cases heq
    cases enrolls_of_eq hout with
    | refused hcode =>
      exact Or.inl ⟨by rw [← hstudents], hcode⟩
    | @enrolled spos cpos emptySlot student course records slots roster hlocate _ hholds hempty
        hslots hrecords hcourse hlt hsearch hset =>
      have hsound := ht.courses
      rw [courseRecords, hrecords, Option.getD_some] at hsound
      have hold := hsound.all course (mem_of_locate hcourse).1
      have hs := length_of_locate_student hlocate
      have hc := length_of_locate_course hcourse
      have hne := ne_empty_of_emptySlot hholds hempty
      have hnew := hold.enroll hs hsearch hset
      refine Or.inr ⟨rfl, ?_, ?_, fun s' c' hc' => ⟨?_, ?_⟩⟩
      · rw [studentRecords, hstudents, Option.getD_some, listsIn_of_locate hlocate, hholds]
      · rw [courseRecords, hrecords, Option.getD_some, rostersIn_of_locate hsound hcourse]
        simpa using notMem_roster hold.inRange hsearch
      · rw [studentRecords, studentRecords, hstudents, Option.getD_some, Option.getD_some,
          listsIn_set (r := { student with enrolledCourses := slots }) hlocate rfl]
        by_cases hs' : s' = s
        · rw [if_pos hs', hs', listsIn_of_locate hlocate, holds_enroll hc hne hc' hslots hempty]
          simp
        · simp [hs']
      · rw [courseRecords, courseRecords, hrecords, Option.getD_some, Option.getD_some,
          rostersIn_set (r := { course with
            enrolledStudents := roster, enrolledCount := course.enrolledCount + 1 })
            hsound hcourse rfl hnew]
        by_cases hc'' : c' = c
        · rw [if_pos hc'', hc'', rostersIn_of_locate hsound hcourse,
            roster_enroll hs hset]
          by_cases hs' : s' = s <;> simp [hs']
        · simp [hc'']

theorem mem_eraseIdx_of_nodup {l : List CString} (hl : l.Nodup) {k : Nat} (hk : k < l.length)
    (x : CString) : x ∈ l.eraseIdx k ↔ x ∈ l ∧ x ≠ l[k] := by
  have hperm := List.getElem_cons_eraseIdx_perm hk
  rw [← hperm.nodup_iff, List.nodup_cons] at hl
  rw [← hperm.mem_iff, List.mem_cons]
  constructor
  · intro hx
    exact ⟨Or.inr hx, fun heq => hl.1 (heq ▸ hx)⟩
  · rintro ⟨hx | hx, hne⟩
    · exact absurd hx hne
    · exact hx

/-- The first section of `unenroll_course` takes the student off the roster. -/
theorem rostersIn_unenrollFrom {records records' : List Course}
    (hsound : CoursesAre Course.Sound records) (h : unenrollFrom s c records = some records')
    (s' c' : CString) :
    rostersIn records' s' c' =
      if s' = s ∧ c' = c then false else rostersIn records s' c' := by
  cases unrosters_of_eq h with
  | missing hlocate =>
    by_cases hpair : s' = s ∧ c' = c
    · rw [if_pos hpair, hpair.2, rostersIn_of_missing hsound hlocate]
    · rw [if_neg hpair]
  | absent hlocate hsearch =>
    by_cases hpair : s' = s ∧ c' = c
    · have hin := (hsound.all _ (mem_of_locate hlocate).1).inRange
      rw [if_pos hpair, hpair.1, hpair.2, rostersIn_of_locate hsound hlocate]
      simpa using notMem_roster hin hsearch
    · rw [if_neg hpair]
  | @removed pos course i roster hlocate hsearch hshift =>
    have hold := hsound.all _ (mem_of_locate hlocate).1
    rw [rostersIn_set (r := { course with
      enrolledStudents := roster, enrolledCount := course.enrolledCount - 1 })
      hsound hlocate rfl (hold.shift hsearch hshift)]
    by_cases hc' : c' = c
    · obtain ⟨k, rfl, hk, hentry⟩ := roster_of_search hold.inRange hsearch
      obtain ⟨_, hsome, hroster⟩ := roster_shift hold.inRange hk
      cases hshift.symm.trans hsome
      have hmem := mem_eraseIdx_of_nodup hold.nodup hk s'
      rw [hentry] at hmem
      rw [if_pos hc', hc', hroster, rostersIn_of_locate hsound hlocate, Bool.eq_iff_iff,
        List.contains_iff_mem, hmem]
      by_cases hs' : s' = s <;> simp [hs']
    · rw [if_neg hc', if_neg (fun hpair => hc' hpair.2)]

/-- The second section of `unenroll_course` clears the slot of the student. -/
theorem listsIn_unenrollIn {records : List Student} {out : Int × List Student}
    (hslots : ∀ student ∈ records, student.listed.Nodup) (hc : c ≠ .empty)
    (h : unenrollIn s c records = some out) (s' c' : CString) (hc' : c' ≠ .empty) :
    listsIn out.2 s' c' = if s' = s ∧ c' = c then false else listsIn records s' c' := by
  cases unlists_of_eq h with
  | missing hlocate =>
    by_cases hpair : s' = s ∧ c' = c
    · rw [if_pos hpair, hpair.1, listsIn_of_missing hlocate]
    · rw [if_neg hpair]
  | absent hlocate hholds =>
    by_cases hpair : s' = s ∧ c' = c
    · rw [if_pos hpair, hpair.1, hpair.2, listsIn_of_locate hlocate, hholds]
    · rw [if_neg hpair]
  | @removed pos i student slots hlocate hfind hset =>
    have hnodup := hslots _ (mem_of_locate hlocate).1
    rw [listsIn_set (r := { student with enrolledCourses := slots }) hlocate rfl]
    by_cases hs' : s' = s
    · rw [if_pos hs', hs', listsIn_of_locate hlocate, holds_unenroll hc hc' hnodup hset hfind]
      by_cases hc'' : c' = c <;> simp [hc'']
    · rw [if_neg hs', if_neg (fun hpair => hs' hpair.1)]

/-- The agreement, for the records of `courses.dat`. -/
theorem Agree.rostersIn_eq (hagree : t.Agree) {records : List Course}
    (hrecords : t.courses = some records) (s : CString) (hc : c ≠ .empty) :
    listsIn t.studentRecords s c = rostersIn records s c := by
  rw [hagree s c hc, courseRecords, hrecords, Option.getD_some]

/-- `update_course` keeps the agreement if the roster is as long as before, and so the same. -/
theorem Agree.updateCourse (hagree : t.Agree) (ht : t.Sound) {id newName : CString}
    {newSeats : Int} (hseats : InSeatRange newSeats)
    (hcut : ¬ (Call.updateCourse id newName newSeats).Truncates t)
    (h : (Call.updateCourse id newName newSeats).apply t = some (code, t')) : t'.Agree := by
  simp only [Call.apply, onCourses] at h
  split at h
  · cases h
    exact hagree
  · next records hrecords =>
    obtain ⟨out, hout, heq⟩ := Option.map_eq_some_iff.mp h
    cases heq
    have hsound := ht.courses
    rw [courseRecords, hrecords, Option.getD_some] at hsound
    cases overwrites_of_eq Course.hasId_of_strcmp hout with
    | missing => exact fun s c hc => hagree.rostersIn_eq hrecords s hc
    | @edited pos course course' hlocate hresize =>
      have hcourse := hsound.all _ (mem_of_locate hlocate).1
      obtain ⟨_, hsome, hid, -, -, hroster⟩ := roster_resize hcourse.inRange newName hseats.1
      cases hresize.symm.trans hsome
      have hlength := hcourse.inRange.length_roster
      have hkeeps : course'.roster = course.roster := by
        rw [hroster, List.take_of_length_le]
        by_contra hlt
        refine hcut ⟨course, ?_, by omega⟩
        rw [courseRecords, hrecords, Option.getD_some]
        exact find?_of_locate hlocate
      intro s c hc
      refine (hagree.rostersIn_eq hrecords s hc).trans ?_
      show rostersIn records s c = rostersIn (records.set pos course') s c
      rw [rostersIn_set hsound hlocate hid (hcourse.resize hseats.1 hresize)]
      by_cases hc' : c = id
      · rw [if_pos hc', hc', hkeeps, rostersIn_of_locate hsound hlocate]
      · rw [if_neg hc']

/-- `remove_course` clears the id from the slots and removes the roster. -/
theorem Agree.removeCourse (hagree : t.Agree) {id : CString} (hid : ValidId id)
    (h : (Call.removeCourse id).apply t = some (code, t')) : t'.Agree := by
  obtain ⟨-, -, rfl⟩ | ⟨records, hrecords, -, rfl⟩ := remove_cases h
  · exact hagree
  · intro s c hc
    have hold := hagree.rostersIn_eq hrecords s hc
    show listsIn ((t.students.map _).getD []) s c = rostersIn (others id records) s c
    rw [rostersIn_others, ← hold, studentRecords]
    cases t.students with
    | none => by_cases hc' : c = id <;> simp [hc', listsIn]
    | some students => exact listsIn_clear hid.1 hc

/-- `unenroll_course` takes the student off the roster and clears the slot. -/
theorem Agree.unenrollCourse (hagree : t.Agree) (ht : t.Sound) (hc₀ : ValidId c)
    (h : (Call.unenrollCourse s c).apply t = some (code, t')) : t'.Agree := by
  simp only [Call.apply, unenroll] at h
  split at h
  · cases h
    exact hagree
  · next records hrecords =>
    obtain ⟨records', hfrom, h⟩ := Option.bind_eq_some_iff.mp h
    have hsound := ht.courses
    rw [courseRecords, hrecords, Option.getD_some] at hsound
    have hrosters := rostersIn_unenrollFrom hsound hfrom
    obtain ⟨hnone, rfl⟩ | ⟨students, out, hstudents, hout, rfl⟩ := onStudents_cases h
    · -- without `students.dat` nobody lists a course, so nobody is on a roster
      intro s' c' hc'
      have hold := hagree.rostersIn_eq hrecords s' hc'
      have hnobody : rostersIn records s' c' = false := by
        have hsame : t.students = none := hnone
        rw [← hold, studentRecords, hsame]
        rfl
      refine (hold.trans hnobody).trans ?_
      show false = rostersIn records' s' c'
      rw [hrosters s' c', hnobody, ite_self]
    · intro s' c' hc'
      have hslots := ht.slots
      have hsame : t.students = some students := hstudents
      rw [studentRecords, hsame, Option.getD_some] at hslots
      have hlists := listsIn_unenrollIn hslots hc₀.1 hout s' c' hc'
      show listsIn out.2 s' c' = rostersIn records' s' c'
      rw [hlists, hrosters s' c', ← hagree.rostersIn_eq hrecords s' hc', studentRecords, hsame,
        Option.getD_some]

/-- A call that cuts no roster keeps the agreement. -/
theorem Agree.apply (hagree : t.Agree) (ht : t.Sound) {call : Call} (hids : call.ValidIds)
    (hseats : call.Seats (fun _ => True) InSeatRange) (hcut : ¬ call.Truncates t)
    (h : call.apply t = some (code, t')) : t'.Agree := by
  cases call with
  | addStudent id name =>
    cases h
    exact fun s c hc => (listsIn_append hc id name).trans (hagree s c hc)
  | updateStudent id newName | activateDeactivateStudent id activate =>
    exact hagree.overwriteStudent (fun _ _ hedit => by cases hedit; exact ⟨rfl, rfl⟩) h
  | addCourse id name facultyId seats =>
    obtain ⟨out, hout, heq⟩ := Option.map_eq_some_iff.mp h
    cases heq
    exact fun s c hc => (hagree s c hc).trans (rostersIn_addCourseTo hout).symm
  | updateCourse id newName newSeats => exact hagree.updateCourse ht hseats hcut h
  | removeCourse id => exact hagree.removeCourse hids h
  | enrollCourse s c =>
    obtain ⟨rfl, -⟩ | ⟨-, -, -, hviews⟩ := enroll_views ht h
    · exact hagree
    · intro s' c' hc'
      obtain ⟨hlists, hrosters⟩ := hviews s' c' hc'
      rw [hlists, hrosters, hagree s' c' hc']
  | unenrollCourse s c => exact hagree.unenrollCourse ht hids.2 h

/-- A call that cuts a roster of tables that agree leaves tables that do not. -/
theorem Agree.truncated (hagree : t.Agree) (ht : t.Sound) {call : Call} (hids : call.ValidIds)
    (hseats : call.Seats (fun _ => True) InSeatRange) (hcut : call.Truncates t)
    (h : call.apply t = some (code, t')) : ¬ t'.Agree := by
  cases call with
  | updateCourse id newName newSeats =>
    obtain ⟨course, hfind, hless⟩ := hcut
    simp only [Call.apply, onCourses] at h
    split at h
    · next hnone =>
      rw [courseRecords, hnone] at hfind
      cases hfind
    · next records hrecords =>
      obtain ⟨out, hout, heq⟩ := Option.map_eq_some_iff.mp h
      cases heq
      have hsound := ht.courses
      rw [courseRecords, hrecords, Option.getD_some] at hsound hfind
      cases overwrites_of_eq Course.hasId_of_strcmp hout with
      | missing hlocate =>
        rw [locate_eq_none.mp hlocate] at hfind
        cases hfind
      | @edited pos found course' hlocate hresize =>
        cases (find?_of_locate hlocate).symm.trans hfind
        have hcourse := hsound.all _ (mem_of_locate hlocate).1
        obtain ⟨_, hsome, hid, -, -, hroster⟩ := roster_resize hcourse.inRange newName hseats.1
        cases hresize.symm.trans hsome
        have hlength := hcourse.inRange.length_roster
        have h₀ := hseats.1
        have hk : newSeats.toNat < course.roster.length := by omega
        intro hagree'
        -- the first student who is cut off
        have hbefore := hagree course.roster[newSeats.toNat] id hids.1
        have hafter := hagree' course.roster[newSeats.toNat] id hids.1
        have hon : rostersIn records course.roster[newSeats.toNat] id = true := by
          rw [rostersIn_of_locate hsound hlocate]
          simp
        have hoff : rostersIn (records.set pos course') course.roster[newSeats.toNat] id =
            false := by
          rw [rostersIn_set hsound hlocate hid (hcourse.resize h₀ hresize), if_pos rfl, hroster]
          have hdrop := hcourse.nodup
          rw [← List.take_append_drop newSeats.toNat course.roster, List.nodup_append] at hdrop
          have hmem : course.roster[newSeats.toNat] ∈ course.roster.drop newSeats.toNat := by
            rw [List.drop_eq_getElem_cons hk]
            exact List.mem_cons_self
          simp only [List.contains_eq_mem, decide_eq_false_iff_not]
          exact fun hmem' => hdrop.2.2 _ hmem' _ hmem rfl
        rw [courseRecords, hrecords, Option.getD_some, hon] at hbefore
        change listsIn t.studentRecords _ _ = rostersIn (records.set pos course') _ _ at hafter
        rw [hbefore, hoff] at hafter
        cases hafter
  | _ => exact hcut.elim

end Tables

/-! ## Runs of complete calls -/

/-- What runs of complete calls with valid arguments keep. -/
theorem sound_of_run {history : List (Event Disk Call)} {d : Disk}
    (hrun : Run Disk.perform .empty history d)
    (hvalid : ∀ e ∈ history, e.label.ValidIds ∧ e.label.Seats (fun _ => True) InSeatRange) :
    d.tables.Sound := by
  refine hrun.invariant (I := fun d => d.tables.Sound)
    (A := fun e => e.label.ValidIds ∧ e.label.Seats (fun _ => True) InSeatRange)
    Disk.sound_empty ?_ hvalid
  rintro d call d' hsound hperform ⟨hids, hseats⟩
  obtain ⟨code, happly⟩ := Disk.apply_of_perform hperform
  exact hsound.apply hids hseats happly

theorem agree_empty : Disk.empty.tables.Agree := fun _ _ _ => rfl

/-- In a run of complete calls from empty files, the two tables agree after every call exactly
if no `update_course` gives a course fewer seats than it has students. -/
theorem tables_agree_iff {history : List (Event Disk Call)} {d : Disk}
    (hrun : Run Disk.perform .empty history d)
    (hvalid : ∀ e ∈ history, e.label.ValidIds ∧ e.label.Seats (fun _ => True) InSeatRange) :
    (∀ e ∈ history, e.after.tables.Agree) ↔
      ∀ e ∈ history, ¬ e.label.Truncates e.before.tables := by
  induction hrun with
  | start => simp
  | @snoc history d d' call hrun hperform ih =>
    have hpast := ih fun e he => hvalid e (List.mem_cons_of_mem _ he)
    have hsound := sound_of_run hrun fun e he => hvalid e (List.mem_cons_of_mem _ he)
    obtain ⟨code, happly⟩ := Disk.apply_of_perform hperform
    obtain ⟨hids, hseats⟩ := hvalid _ List.mem_cons_self
    -- the tables before the last call agree if all earlier states do
    have hlast : (∀ e ∈ history, e.after.tables.Agree) → d.tables.Agree := fun hall => by
      cases hrun with
      | start => exact agree_empty
      | snoc => exact hall _ List.mem_cons_self
    constructor
    · intro hall
      have hbefore := fun e he => hall e (List.mem_cons_of_mem _ he)
      refine List.forall_mem_cons.mpr ⟨fun hcut => ?_, hpast.mp hbefore⟩
      exact (hlast hbefore).truncated hsound hids hseats hcut happly (hall _ List.mem_cons_self)
    · intro hcut
      have hbefore := hpast.mpr fun e he => hcut e (List.mem_cons_of_mem _ he)
      exact List.forall_mem_cons.mpr
        ⟨(hlast hbefore).apply hsound hids hseats (hcut _ List.mem_cons_self) happly, hbefore⟩

/-- A student enrols, and the course loses its only seat. -/
def truncation : List Call :=
  [.addStudent (.ofString "s1") (.ofString "Ann"),
    .addCourse (.ofString "c1") (.ofString "Logic") (.ofString "f1") 1,
    .enrollCourse (.ofString "s1") (.ofString "c1"),
    .updateCourse (.ofString "c1") (.ofString "Logic") 0]

/-- The run of `truncation`, and what it leaves. -/
theorem truncation_run : ∃ history d, Run Disk.perform .empty history d ∧
    (∀ e ∈ history, e.label.ValidIds ∧ e.label.Seats (fun _ => True) InSeatRange) ∧
    ∃ e ∈ history, listsIn e.after.tables.studentRecords (.ofString "s1") (.ofString "c1") = true ∧
      rostersIn e.after.tables.courseRecords (.ofString "s1") (.ofString "c1") = false := by
  have hreplay : ((replay Disk.perform [] .empty truncation).map fun out => decide
      ((∀ e ∈ out.1, e.label.ValidIds ∧ e.label.Seats (fun _ => True) InSeatRange) ∧
        ∃ e ∈ out.1,
          listsIn e.after.tables.studentRecords (.ofString "s1") (.ofString "c1") = true ∧
          rostersIn e.after.tables.courseRecords (.ofString "s1") (.ofString "c1") = false)) =
      some true := by decide +kernel
  obtain ⟨⟨history, d⟩, hout, hcheck⟩ := Option.map_eq_some_iff.mp hreplay
  exact ⟨history, d, replay_run .start hout, of_decide_eq_true hcheck⟩

/-- An `update_course` that takes a seat away leaves the course in the slots of its student. -/
theorem truncation_disagrees : ¬ ∀ (history : List (Event Disk Call)) (d : Disk),
    Run Disk.perform .empty history d →
    (∀ e ∈ history, e.label.ValidIds ∧ e.label.Seats (fun _ => True) InSeatRange) →
    ∀ e ∈ history, e.after.tables.Agree := by
  intro hall
  obtain ⟨history, d, hrun, hvalid, e, he, hlists, hrosters⟩ := truncation_run
  have hagree := hall history d hrun hvalid e he (.ofString "s1") (.ofString "c1") (by decide)
  rw [hlists, hrosters] at hagree
  cases hagree

theorem tables_agree_iff_truncation : ∃ history d, Run Disk.perform .empty history d ∧
    history ≠ [] ∧ ((∀ e ∈ history, e.after.tables.Agree) ↔
      ∀ e ∈ history, ¬ e.label.Truncates e.before.tables) := by
  obtain ⟨history, d, hrun, hvalid, e, he, -⟩ := truncation_run
  exact ⟨history, d, hrun, List.ne_nil_of_mem he, tables_agree_iff hrun hvalid⟩

end AcademiaCr.Academia
