import Mathlib.Data.List.Induction
import AcademiaCr.Academia.Interleaving

/-!
# Updates of courses that are lost

An operation that has opened `courses.dat` before `remove_course` gives the name to another file
writes to a file that has no name any more. If no section finds its file renamed, every section
is seen.

## Main definitions

- `courseIds`, `onRoster`: the ids and the rosters in the records of `courses.dat`
- `Call.SeenIn`: what the records show of a call that has returned 0
- `courses_serial_of_fresh`: `courses.dat` holds what the sections leave one after another
- `renamed_file_loses_update`: a course that is added to a file without a name
-/

namespace AcademiaCr.Academia

open CLang RecordFile Resumption Prog Transition

variable {ι : Type} [DecidableEq ι]

/-! ## Ids -/

/-- The ids of the courses. -/
def courseIds (courses : List Course) : List CString := courses.map (·.id.str)

/-- The id that a call stores. -/
def Call.Adds (id : CString) : Call → Prop
  | .addCourse id' _ _ _ => (strncpy maxId id').str = id
  | _ => False

theorem courseIds_set {id : CString} {courses : List Course} {pos : Nat} {course course' : Course}
    (hlocate : locate (Course.hasId id) courses = some (pos, course))
    (hid : course'.id = course.id) : courseIds (courses.set pos course') = courseIds courses :=
  ids_setCourse hlocate hid

variable {students : List Student} {courses : List Course} {n : Nat}
  {out : Option Int × List Student × List Course}

/-- What the sections do to the ids. -/
theorem courseIds_sectionOn {call : Call} (h : call.sectionOn students courses n = some out) :
    courseIds out.2.2 = courseIds courses ∨
      (∃ id, call.Adds id ∧ courseIds out.2.2 = courseIds courses ++ [id]) ∨
      ∃ id, call = .removeCourse id ∧ n = 0 ∧
        courseIds out.2.2 = (courseIds courses).filter (· ≠ id) := by
  cases call with
  | addStudent id name =>
    cases h
    exact .inl rfl
  | updateStudent id newName =>
    obtain ⟨out, -, rfl⟩ := Option.map_eq_some_iff.mp h
    exact .inl rfl
  | activateDeactivateStudent id activate =>
    obtain ⟨out, -, rfl⟩ := Option.map_eq_some_iff.mp h
    exact .inl rfl
  | addCourse id name facultyId seats =>
    obtain ⟨out, hout, rfl⟩ := Option.map_eq_some_iff.mp h
    obtain ⟨-, rfl⟩ | ⟨-, rfl⟩ := addCourseTo_cases hout
    · exact .inl rfl
    · exact .inr (.inl ⟨(strncpy maxId id).str, rfl, List.map_append⟩)
  | updateCourse id newName newSeats =>
    obtain ⟨out, hout, rfl⟩ := Option.map_eq_some_iff.mp h
    cases overwrites_of_eq Course.hasId_of_strcmp hout with
    | missing => exact .inl rfl
    | edited hlocate hedit => exact .inl (courseIds_set hlocate (resize_id hedit))
  | removeCourse id =>
    cases n with
    | zero =>
      obtain ⟨out, hout, rfl⟩ := Option.map_eq_some_iff.mp h
      obtain rfl := removeFrom_eq hout
      refine .inr (.inr ⟨id, rfl, rfl, ?_⟩)
      rw [courseIds, courseIds, List.filter_map]
      refine congrArg _ (List.filter_congr fun course _ => ?_)
      simp [Course.hasId]
    | succ n =>
      obtain ⟨swept, -, rfl⟩ := Option.map_eq_some_iff.mp h
      exact .inl rfl
  | enrollCourse studentId courseId =>
    obtain ⟨out, hout, rfl⟩ := Option.map_eq_some_iff.mp h
    cases enrolls_of_eq hout with
    | refused => exact .inl rfl
    | enrolled _ _ _ _ _ hcourses hlocate =>
      cases hcourses
      exact .inl (courseIds_set hlocate rfl)
  | unenrollCourse studentId courseId =>
    cases n with
    | zero =>
      obtain ⟨records, hrecords, rfl⟩ := Option.map_eq_some_iff.mp h
      cases unrosters_of_eq hrecords with
      | missing | absent => exact .inl rfl
      | removed hlocate => exact .inl (courseIds_set hlocate rfl)
    | succ n =>
      obtain ⟨out, -, rfl⟩ := Option.map_eq_some_iff.mp h
      exact .inl rfl

/-! ## Codes -/

variable {calls : ι → Call} {x : Serial ι}

/-- One of the sections has decided the code, and the later ones go on from what it leaves. -/
def DecidedIn (calls : ι → Call) (students : List Student) (courses : List Course)
    (order : List (ι × Nat)) (x : Serial ι) (t : ι) (code : Int) : Prop :=
  ∃ earlier later n y z, order = earlier ++ (t, n) :: later ∧
    serial calls students courses earlier = some y ∧
    (calls t).sectionOn y.students y.courses n = some (some code, z.students, z.courses) ∧
    later.foldlM (Serial.step calls) z = some x

theorem DecidedIn.snoc {order : List (ι × Nat)} {turn : ι × Nat} {y : Serial ι} {t : ι}
    {code : Int} (h : DecidedIn calls students courses order y t code)
    (hstep : Serial.step calls y turn = some x) :
    DecidedIn calls students courses (order ++ [turn]) x t code := by
  obtain ⟨earlier, later, n, y', z, rfl, hy', hz, hlater⟩ := h
  refine ⟨earlier, later ++ [turn], n, y', z, by simp, hy', hz, ?_⟩
  rw [List.foldlM_append, hlater]
  exact (bind_pure (Serial.step calls y turn)).trans hstep

theorem decidedIn_of_code {order : List (ι × Nat)} {t : ι} {code : Int}
    (h : serial calls students courses order = some x) (hcode : x.code t = some code) :
    DecidedIn calls students courses order x t code := by
  induction order using List.reverseRecOn generalizing x with
  | nil =>
    cases h
    cases hcode
  | append_singleton order turn ih =>
    rw [serial_snoc] at h
    obtain ⟨y, hy, hstep⟩ := Option.bind_eq_some_iff.mp h
    obtain ⟨⟨v, students', courses'⟩, hsection, hx⟩ := Option.map_eq_some_iff.mp hstep
    have hold : y.code t = some code →
        DecidedIn calls students courses (order ++ [turn]) x t code := fun hcode' =>
      (ih hy hcode').snoc hstep
    rw [← hx] at hcode
    by_cases ht : t = turn.1
    · cases v with
      | none => exact hold (by simpa [ht] using hcode)
      | some c =>
        have hc : c = code := by simpa [ht] using hcode
        refine ⟨order, [], turn.2, y, x, by rw [ht], hy, ?_, rfl⟩
        rw [ht, hsection, ← hx, hc]
    · exact hold (by simpa [ht] using hcode)

/-- What each of the sections keeps. -/
theorem foldlM_step_invariant {P : Serial ι → Prop} {order : List (ι × Nat)} {z : Serial ι}
    (hP : ∀ turn ∈ order, ∀ y y', Serial.step calls y turn = some y' → P y → P y') (hz : P z)
    (h : order.foldlM (Serial.step calls) z = some x) : P x := by
  induction order generalizing z with
  | nil =>
    cases h
    exact hz
  | cons turn order ih =>
    rw [List.foldlM_cons] at h
    obtain ⟨y, hy, hrest⟩ := Option.bind_eq_some_iff.mp h
    have hz' := hP _ List.mem_cons_self _ _ hy hz
    exact ih (fun u hu => hP u (List.mem_cons_of_mem _ hu)) hz' hrest

/-- Overwriting the first record with an id leaves the other records. -/
theorem mem_set_of_locate {p : Course → Bool} {pos : Nat} {course r : Course}
    (hmem : course ∈ courses) (hlocate : locate p courses = some (pos, r)) (r' : Course) :
    course ∈ courses.set pos r' ∨ (course = r ∧ r' ∈ courses.set pos r') := by
  obtain ⟨i, hi, rfl⟩ := List.mem_iff_getElem.mp hmem
  by_cases hpos : pos = i
  · subst hpos
    refine .inr ⟨?_, List.mem_set hi r'⟩
    have hget := getElem?_of_locate hlocate
    rw [List.getElem?_eq_getElem hi] at hget
    exact Option.some.inj hget
  · refine .inl (List.mem_iff_getElem.mpr ⟨i, by rwa [List.length_set], ?_⟩)
    rw [List.getElem_set_ne hpos]

/-- A course keeps its name and its seats until it is updated or removed. -/
theorem exists_course_sectionOn {call : Call} {course : Course}
    (h : call.sectionOn students courses n = some out) (hmem : course ∈ courses)
    (hremoves : ∀ id, call = .removeCourse id → course.id.str ≠ id)
    (hupdates : ∀ id newName newSeats, call = .updateCourse id newName newSeats →
      course.id.str ≠ id) :
    ∃ course' ∈ out.2.2, course'.id = course.id ∧ course'.name = course.name ∧
      course'.totalSeats = course.totalSeats := by
  -- a section overwrites the course itself with the same fields, or another course
  have hkept : ∀ {id : CString} {pos : Nat} {r r' : Course},
      locate (Course.hasId id) courses = some (pos, r) → (course = r → r'.id = r.id ∧
        r'.name = r.name ∧ r'.totalSeats = r.totalSeats) →
      ∃ course' ∈ courses.set pos r', course'.id = course.id ∧ course'.name = course.name ∧
        course'.totalSeats = course.totalSeats := by
    intro id pos r r' hlocate hfields
    obtain hmem' | ⟨rfl, hmem'⟩ := mem_set_of_locate hmem hlocate r'
    · exact ⟨course, hmem', rfl, rfl, rfl⟩
    · exact ⟨r', hmem', hfields rfl⟩
  cases call with
  | addStudent id name =>
    cases h
    exact ⟨course, hmem, rfl, rfl, rfl⟩
  | updateStudent id newName =>
    obtain ⟨out, -, rfl⟩ := Option.map_eq_some_iff.mp h
    exact ⟨course, hmem, rfl, rfl, rfl⟩
  | activateDeactivateStudent id activate =>
    obtain ⟨out, -, rfl⟩ := Option.map_eq_some_iff.mp h
    exact ⟨course, hmem, rfl, rfl, rfl⟩
  | addCourse id name facultyId seats =>
    obtain ⟨out, hout, rfl⟩ := Option.map_eq_some_iff.mp h
    refine ⟨course, ?_, rfl, rfl, rfl⟩
    obtain ⟨-, rfl⟩ | ⟨-, rfl⟩ := addCourseTo_cases hout
    · exact hmem
    · exact List.mem_append_left _ hmem
  | updateCourse id newName newSeats =>
    obtain ⟨out, hout, rfl⟩ := Option.map_eq_some_iff.mp h
    cases overwrites_of_eq Course.hasId_of_strcmp hout with
    | missing => exact ⟨course, hmem, rfl, rfl, rfl⟩
    | edited hlocate hedit =>
      refine hkept hlocate fun heq => absurd ?_ (hupdates id newName newSeats rfl)
      simpa [heq, Course.hasId] using (mem_of_locate hlocate).2
  | removeCourse id =>
    cases n with
    | zero =>
      obtain ⟨out, hout, rfl⟩ := Option.map_eq_some_iff.mp h
      obtain rfl := removeFrom_eq hout
      refine ⟨course, List.mem_filter.mpr ⟨hmem, ?_⟩, rfl, rfl, rfl⟩
      simpa [Course.hasId] using hremoves id rfl
    | succ n =>
      obtain ⟨swept, -, rfl⟩ := Option.map_eq_some_iff.mp h
      exact ⟨course, hmem, rfl, rfl, rfl⟩
  | enrollCourse studentId courseId =>
    obtain ⟨out, hout, rfl⟩ := Option.map_eq_some_iff.mp h
    cases enrolls_of_eq hout with
    | refused => exact ⟨course, hmem, rfl, rfl, rfl⟩
    | enrolled _ _ _ _ _ hcourses hlocate =>
      cases hcourses
      exact hkept hlocate fun _ => ⟨rfl, rfl, rfl⟩
  | unenrollCourse studentId courseId =>
    cases n with
    | zero =>
      obtain ⟨records, hrecords, rfl⟩ := Option.map_eq_some_iff.mp h
      cases unrosters_of_eq hrecords with
      | missing | absent => exact ⟨course, hmem, rfl, rfl, rfl⟩
      | removed hlocate => exact hkept hlocate fun _ => ⟨rfl, rfl, rfl⟩
    | succ n =>
      obtain ⟨out, -, rfl⟩ := Option.map_eq_some_iff.mp h
      exact ⟨course, hmem, rfl, rfl, rfl⟩

/-! ## Rosters -/

/-- The roster of the first course with the id has the student. -/
def onRoster (courses : List Course) (s c : CString) : Bool :=
  (courses.find? (Course.hasId c)).any (·.roster.contains s)

section Rosters

variable {s c id : CString} {pos : Nat} {course : Course}

theorem onRoster_of_locate (hlocate : locate (Course.hasId id) courses = some (pos, course)) :
    onRoster courses s id = course.roster.contains s := by
  rw [onRoster, find?_of_locate hlocate, Option.any_some]

/-- Another roster for one course. -/
theorem onRoster_set {r : Course} (hlocate : locate (Course.hasId id) courses = some (pos, course))
    (hid : r.id = course.id) :
    onRoster (courses.set pos r) s c =
      if c = id then r.roster.contains s else onRoster courses s c := by
  rw [onRoster, onRoster]
  by_cases hc : c = id
  · rw [if_pos hc, hc, find?_setCourse_self hlocate hid, Option.any_some]
  · rw [if_neg hc, find?_setCourse_other hlocate hid hc]

theorem onRoster_addCourseTo {name facultyId : CString} {seats : Int} {out : Int × List Course}
    (h : addCourseTo id name facultyId seats courses = some out) :
    onRoster out.2 s c = onRoster courses s c := by
  obtain ⟨-, rfl⟩ | ⟨-, rfl⟩ := addCourseTo_cases h
  · rfl
  · rw [onRoster, List.find?_append, onRoster]
    cases courses.find? (Course.hasId c) with
    | some course => rfl
    | none =>
      -- the new course has nobody on its roster
      rw [Option.none_or, List.find?_cons]
      split
      · rw [Option.any_some, roster_newCourse]
        rfl
      · rfl

theorem onRoster_others :
    onRoster (others id courses) s c = if c = id then false else onRoster courses s c := by
  have hfind : (others id courses).find? (Course.hasId c) =
      if c = id then none else courses.find? (Course.hasId c) := by
    rw [others, List.find?_filter]
    by_cases hc : c = id
    · rw [if_pos hc, hc, List.find?_eq_none]
      intro course _
      cases course.hasId id <;> simp
    · rw [if_neg hc]
      refine congrArg (courses.find? ·) (funext fun course => ?_)
      by_cases hcourse : course.id.str = c
      · simp [Course.hasId, hcourse, hc]
      · simp [Course.hasId, hcourse]
  rw [onRoster, hfind]
  by_cases hc : c = id
  · rw [if_pos hc, if_pos hc, Option.any_none]
  · rw [if_neg hc, if_neg hc, onRoster]

/-- The first section of `unenroll_course` takes the student off the roster. -/
theorem onRoster_unenrollFrom {records : List Course} (hsound : ∀ course ∈ courses, course.Sound)
    (h : unenrollFrom s c courses = some records) (s' c' : CString) :
    onRoster records s' c' = if s' = s ∧ c' = c then false else onRoster courses s' c' := by
  cases unrosters_of_eq h with
  | missing hlocate =>
    by_cases hpair : s' = s ∧ c' = c
    · rw [if_pos hpair, hpair.2, onRoster, locate_eq_none.mp hlocate, Option.any_none]
    · rw [if_neg hpair]
  | absent hlocate hsearch =>
    by_cases hpair : s' = s ∧ c' = c
    · have hin := (hsound _ (mem_of_locate hlocate).1).inRange
      rw [if_pos hpair, hpair.1, hpair.2, onRoster_of_locate hlocate]
      simpa using notMem_roster hin hsearch
    · rw [if_neg hpair]
  | @removed pos course i roster hlocate hsearch hshift =>
    have hold := hsound _ (mem_of_locate hlocate).1
    rw [onRoster_set (r := { course with
      enrolledStudents := roster, enrolledCount := course.enrolledCount - 1 }) hlocate rfl]
    by_cases hc' : c' = c
    · obtain ⟨k, rfl, hk, hentry⟩ := roster_of_search hold.inRange hsearch
      obtain ⟨_, hsome, hroster⟩ := roster_shift hold.inRange hk
      cases hshift.symm.trans hsome
      have hmem := Tables.mem_eraseIdx_of_nodup hold.nodup hk s'
      rw [hentry] at hmem
      rw [if_pos hc', hc', hroster, onRoster_of_locate hlocate, Bool.eq_iff_iff,
        List.contains_iff_mem, hmem]
      by_cases hs' : s' = s <;> simp [hs']
    · rw [if_neg hc', if_neg (fun hpair => hc' hpair.2)]

/-- Rosters without duplicates stay so. -/
theorem sound_sectionOn {call : Call} (hsound : ∀ course ∈ courses, course.Sound)
    (h : call.sectionOn students courses n = some out) : ∀ course ∈ out.2.2, course.Sound := by
  have hset : ∀ {course' : Course}, course'.Sound → ∀ pos,
      ∀ course ∈ courses.set pos course', course.Sound := by
    intro course' hcourse' pos course hmem
    obtain hmem | rfl := List.mem_or_eq_of_mem_set hmem
    · exact hsound course hmem
    · exact hcourse'
  cases call with
  | addStudent id name =>
    cases h
    exact hsound
  | updateStudent id newName | activateDeactivateStudent id activate =>
    obtain ⟨out, -, rfl⟩ := Option.map_eq_some_iff.mp h
    exact hsound
  | addCourse id name facultyId seats =>
    obtain ⟨out, hout, rfl⟩ := Option.map_eq_some_iff.mp h
    obtain ⟨-, rfl⟩ | ⟨-, rfl⟩ := addCourseTo_cases hout
    · exact hsound
    · intro course hmem
      obtain hmem | hmem := List.mem_append.mp hmem
      · exact hsound course hmem
      · rw [List.mem_singleton.mp hmem]
        exact sound_newCourse id name facultyId seats
  | updateCourse id newName newSeats =>
    obtain ⟨out, hout, rfl⟩ := Option.map_eq_some_iff.mp h
    cases overwrites_of_eq Course.hasId_of_strcmp hout with
    | missing => exact hsound
    | edited hlocate hresize =>
      have hold := hsound _ (mem_of_locate hlocate).1
      have hseats : 0 ≤ newSeats := Int.not_lt.mp fun hneg => by
        rw [resize_negative hold.inRange newName hneg] at hresize
        cases hresize
      exact hset (hold.resize hseats hresize) _
  | removeCourse id =>
    cases n with
    | zero =>
      obtain ⟨out, hout, rfl⟩ := Option.map_eq_some_iff.mp h
      obtain rfl := removeFrom_eq hout
      exact fun course hmem => hsound course (List.mem_of_mem_filter hmem)
    | succ n =>
      obtain ⟨swept, -, rfl⟩ := Option.map_eq_some_iff.mp h
      exact hsound
  | enrollCourse studentId courseId =>
    obtain ⟨out, hout, rfl⟩ := Option.map_eq_some_iff.mp h
    cases enrolls_of_eq hout with
    | refused => exact hsound
    | enrolled hstudent _ _ _ _ hcourses hlocate _ hsearch hroster =>
      cases hcourses
      have hold := hsound _ (mem_of_locate hlocate).1
      exact hset (hold.enroll (length_of_locate_student hstudent) hsearch hroster) _
  | unenrollCourse studentId courseId =>
    cases n with
    | zero =>
      obtain ⟨records, hrecords, rfl⟩ := Option.map_eq_some_iff.mp h
      cases unrosters_of_eq hrecords with
      | missing | absent => exact hsound
      | removed hlocate hsearch hshift =>
        have hold := hsound _ (mem_of_locate hlocate).1
        exact hset (hold.shift hsearch hshift) _
    | succ n =>
      obtain ⟨out, -, rfl⟩ := Option.map_eq_some_iff.mp h
      exact hsound

end Rosters

/-! ## What is seen of a call -/

/-- What the records show of a call that has returned 0. The calls on students alone do not
touch them. -/
def Call.SeenIn : Call → List Course → Prop
  | .addCourse id _ _ _, courses => (strncpy maxId id).str ∈ courseIds courses
  | .updateCourse id newName newSeats, courses => ∃ course ∈ courses, course.id.str = id ∧
      course.name = strncpy maxName newName ∧ course.totalSeats = newSeats
  | .removeCourse id, courses => id ∉ courseIds courses
  | .enrollCourse studentId courseId, courses => onRoster courses studentId courseId = true
  | .unenrollCourse studentId courseId, courses => onRoster courses studentId courseId = false
  | .addStudent _ _, _ | .updateStudent _ _, _ | .activateDeactivateStudent _ _, _ => True

/-- The calls that may hide it later. -/
def Call.Hides (later : Call) : Call → Prop
  | .addCourse id _ _ _ => later = .removeCourse (strncpy maxId id).str
  | .updateCourse id _ _ => later = .removeCourse id ∨ ∃ newName newSeats,
      later = .updateCourse id newName newSeats
  | .removeCourse id => later.Adds id
  | .enrollCourse studentId courseId => later = .unenrollCourse studentId courseId ∨
      later = .removeCourse courseId ∨ ∃ newName newSeats, newSeats < (maxUsers : Int) ∧
        later = .updateCourse courseId newName newSeats
  | .unenrollCourse studentId courseId => later = .enrollCourse studentId courseId
  | .addStudent _ _ | .updateStudent _ _ | .activateDeactivateStudent _ _ => False

/-- The calls that are seen on a roster. -/
def Call.EditsRoster : Call → Prop
  | .enrollCourse _ _ | .unenrollCourse _ _ => True
  | _ => False

/-- What the sections do to the rosters. -/
theorem onRoster_sectionOn {call : Call} (hsound : ∀ course ∈ courses, course.Sound)
    (h : call.sectionOn students courses n = some out) (s c : CString) :
    onRoster out.2.2 s c = onRoster courses s c ∨
      (call.Hides (.enrollCourse s c) ∧ onRoster out.2.2 s c = false) ∨
      (call = .enrollCourse s c ∧ onRoster out.2.2 s c = true) := by
  cases call with
  | addStudent id name =>
    cases h
    exact .inl rfl
  | updateStudent id newName | activateDeactivateStudent id activate =>
    obtain ⟨out, -, rfl⟩ := Option.map_eq_some_iff.mp h
    exact .inl rfl
  | addCourse id name facultyId seats =>
    obtain ⟨out, hout, rfl⟩ := Option.map_eq_some_iff.mp h
    exact .inl (onRoster_addCourseTo hout)
  | updateCourse id newName newSeats =>
    obtain ⟨out, hout, rfl⟩ := Option.map_eq_some_iff.mp h
    cases overwrites_of_eq Course.hasId_of_strcmp hout with
    | missing => exact .inl rfl
    | @edited pos course course' hlocate hresize =>
      have hin := (hsound _ (mem_of_locate hlocate).1).inRange
      have hseats : 0 ≤ newSeats := Int.not_lt.mp fun hneg => by
        rw [resize_negative hin newName hneg] at hresize
        cases hresize
      obtain ⟨_, hsome, hid, -, -, hroster⟩ := roster_resize hin newName hseats
      cases hresize.symm.trans hsome
      have hset := onRoster_set (s := s) (c := c) hlocate hid
      by_cases hc : c = id
      · subst hc
        rw [if_pos rfl, hroster] at hset
        cases htake : (course.roster.take newSeats.toNat).contains s with
        | true =>
          refine .inl (hset.trans ?_)
          rw [htake, onRoster_of_locate hlocate]
          exact (List.contains_iff_mem.mpr
            (List.mem_of_mem_take (List.contains_iff_mem.mp htake))).symm
        | false =>
          -- the student is cut off, or was not on the roster
          by_cases hless : newSeats < maxUsers
          · exact .inr (.inl ⟨.inr (.inr ⟨newName, newSeats, hless, rfl⟩), hset.trans htake⟩)
          · have hlength := hin.length_roster
            have hmax := hin.2
            rw [List.take_of_length_le (by omega)] at hset
            exact .inl (hset.trans (onRoster_of_locate hlocate).symm)
      · rw [if_neg hc] at hset
        exact .inl hset
  | removeCourse id =>
    cases n with
    | zero =>
      obtain ⟨out, hout, rfl⟩ := Option.map_eq_some_iff.mp h
      obtain rfl := removeFrom_eq hout
      have hothers := @onRoster_others courses s c id
      by_cases hc : c = id
      · rw [if_pos hc] at hothers
        exact .inr (.inl ⟨.inr (.inl (by rw [hc])), hothers⟩)
      · rw [if_neg hc] at hothers
        exact .inl hothers
    | succ n =>
      obtain ⟨swept, -, rfl⟩ := Option.map_eq_some_iff.mp h
      exact .inl rfl
  | enrollCourse studentId courseId =>
    obtain ⟨out, hout, rfl⟩ := Option.map_eq_some_iff.mp h
    cases enrolls_of_eq hout with
    | refused => exact .inl rfl
    | @enrolled _ cpos _ _ course _ _ roster hstudent _ _ _ _ hcourses hlocate _ _ hroster =>
      cases hcourses
      have hset := onRoster_set (s := s) (c := c) (r := { course with
        enrolledStudents := roster, enrolledCount := course.enrolledCount + 1 }) hlocate rfl
      by_cases hc : c = courseId
      · subst hc
        rw [if_pos rfl, roster_enroll (length_of_locate_student hstudent) hroster] at hset
        by_cases hs : s = studentId
        · subst hs
          exact .inr (.inr ⟨rfl, hset.trans (by simp)⟩)
        · refine .inl (hset.trans ?_)
          rw [onRoster_of_locate hlocate]
          simp [hs]
      · rw [if_neg hc] at hset
        exact .inl hset
  | unenrollCourse studentId courseId =>
    cases n with
    | zero =>
      obtain ⟨records, hrecords, rfl⟩ := Option.map_eq_some_iff.mp h
      have hset := onRoster_unenrollFrom hsound hrecords s c
      by_cases hpair : s = studentId ∧ c = courseId
      · rw [if_pos hpair] at hset
        exact .inr (.inl ⟨.inl (by rw [hpair.1, hpair.2]), hset⟩)
      · rw [if_neg hpair] at hset
        exact .inl hset
    | succ n =>
      obtain ⟨out, -, rfl⟩ := Option.map_eq_some_iff.mp h
      exact .inl rfl

theorem resize_fields {course course' : Course} {newName : CString} {newSeats : Int}
    (h : course.resize newName newSeats = some course') :
    course'.name = strncpy maxName newName ∧ course'.totalSeats = newSeats := by
  unfold Course.resize at h
  split at h
  · obtain ⟨roster, -, rfl⟩ := Option.map_eq_some_iff.mp h
    exact ⟨rfl, rfl⟩
  · cases h
    exact ⟨rfl, rfl⟩

/-- A section on `courses.dat` is seen in what it leaves, if it decides on 0 or is the one of
`unenroll_course`, which decides later. -/
theorem seenIn_sectionOn {call : Call} {v : Option Int} {students' : List Student}
    {courses' : List Course} (hsound : call.EditsRoster → ∀ course ∈ courses, course.Sound)
    (hv : v = some 0 ∨ ∃ s c, call = .unenrollCourse s c)
    (h : call.sectionOn students courses 0 = some (v, students', courses')) :
    call.SeenIn courses' := by
  have hdecides : (∀ s c, call ≠ .unenrollCourse s c) → v = some 0 := fun hno => by
    obtain hv | ⟨s, c, hcall⟩ := hv
    · exact hv
    · exact absurd hcall (hno s c)
  cases call with
  | addCourse id name facultyId seats =>
    obtain ⟨out, hout, heq⟩ := Option.map_eq_some_iff.mp h
    cases heq
    obtain ⟨-, rfl⟩ | ⟨-, rfl⟩ := addCourseTo_cases hout
    · cases hdecides fun _ _ hcall => by cases hcall
    · simp [Call.SeenIn, courseIds, newCourse]
  | updateCourse id newName newSeats =>
    obtain ⟨⟨code, records⟩, hout, heq⟩ := Option.map_eq_some_iff.mp h
    cases heq
    cases overwrites_of_eq Course.hasId_of_strcmp hout with
    | missing => cases hdecides fun _ _ hcall => by cases hcall
    | edited hlocate hedit =>
      obtain ⟨hname, hseats⟩ := resize_fields hedit
      have hstr := (mem_of_locate hlocate).2
      have hpos := (List.getElem?_eq_some_iff.mp (getElem?_of_locate hlocate)).1
      refine ⟨_, List.mem_set hpos _, ?_, hname, hseats⟩
      rw [resize_id hedit]
      simpa [Course.hasId] using hstr
  | removeCourse id =>
    obtain ⟨out, hout, heq⟩ := Option.map_eq_some_iff.mp h
    obtain rfl := removeFrom_eq hout
    have hcourses : others id courses = courses' := congrArg (fun out => out.2.2) heq
    rw [← hcourses]
    simp [Call.SeenIn, courseIds, others, Course.hasId]
  | enrollCourse studentId courseId =>
    obtain ⟨out, hout, heq⟩ := Option.map_eq_some_iff.mp h
    cases heq
    cases enrolls_of_eq hout with
    | refused hcode =>
      exact absurd (Option.some.inj (hdecides fun _ _ hcall => by cases hcall)) hcode
    | @enrolled _ _ _ _ course _ _ roster hstudent _ _ _ _ hcourses hlocate _ _ hroster =>
      cases hcourses
      have hset := onRoster_set (s := studentId) (c := courseId) (r := { course with
        enrolledStudents := roster, enrolledCount := course.enrolledCount + 1 }) hlocate rfl
      rw [if_pos rfl, roster_enroll (length_of_locate_student hstudent) hroster] at hset
      exact hset.trans (by simp)
  | unenrollCourse studentId courseId =>
    obtain ⟨records, hrecords, heq⟩ := Option.map_eq_some_iff.mp h
    cases heq
    exact (onRoster_unenrollFrom (hsound trivial) hrecords studentId courseId).trans
      (if_pos ⟨rfl, rfl⟩)
  | _ => trivial

/-- A course that has been removed stays away until it is added. -/
theorem notMem_courseIds_step {id : CString} {turn : ι × Nat} {y y' : Serial ι}
    (hadds : ¬ (calls turn.1).Adds id) (h : Serial.step calls y turn = some y')
    (hy : id ∉ courseIds y.courses) : id ∉ courseIds y'.courses := by
  obtain ⟨out, hout, rfl⟩ := Option.map_eq_some_iff.mp h
  obtain heq | ⟨id', hid', heq⟩ | ⟨id', -, -, heq⟩ := courseIds_sectionOn hout
  · rwa [heq]
  · have hne : id ≠ id' := fun h => hadds (h ▸ hid')
    simp [heq, hy, hne]
  · rw [heq]
    exact fun hmem => hy (List.mem_of_mem_filter hmem)

/-- A course that has been added stays there until it is removed. -/
theorem mem_courseIds_step {id : CString} {turn : ι × Nat} {y y' : Serial ι}
    (hremoves : calls turn.1 ≠ .removeCourse id) (h : Serial.step calls y turn = some y')
    (hy : id ∈ courseIds y.courses) : id ∈ courseIds y'.courses := by
  obtain ⟨out, hout, rfl⟩ := Option.map_eq_some_iff.mp h
  obtain heq | ⟨id', -, heq⟩ | ⟨id', hcall, -, heq⟩ := courseIds_sectionOn hout
  · rwa [heq]
  · rw [heq]
    exact List.mem_append_left _ hy
  · have hne : id ≠ id' := fun h => hremoves (h ▸ hcall)
    simp [heq, hy, hne]

/-- What is seen of a call, and the rosters that the call relies on. -/
structure Call.Seen (call : Call) (courses : List Course) : Prop where
  sound : call.EditsRoster → ∀ course ∈ courses, course.Sound
  seen : call.SeenIn courses

theorem Call.Seen.step {call : Call} {turn : ι × Nat} {y y' : Serial ι}
    (hhides : ¬ (calls turn.1).Hides call) (h : Serial.step calls y turn = some y')
    (hy : call.Seen y.courses) : call.Seen y'.courses := by
  have hsound : call.EditsRoster → ∀ course ∈ y'.courses, course.Sound := fun hedits => by
    obtain ⟨out, hout, rfl⟩ := Option.map_eq_some_iff.mp h
    exact sound_sectionOn (hy.sound hedits) hout
  refine ⟨hsound, ?_⟩
  have hseen := hy.seen
  cases call with
  | addCourse => exact mem_courseIds_step hhides h hseen
  | updateCourse id newName newSeats =>
    obtain ⟨course, hmem, hid, hname, hseats⟩ := hseen
    obtain ⟨out, hout, rfl⟩ := Option.map_eq_some_iff.mp h
    have hkept := exists_course_sectionOn hout hmem
      (fun id' hcall hid' => hhides (.inl (by rw [hcall, ← hid', hid])))
      (fun id' newName' newSeats' hcall hid' =>
        hhides (.inr ⟨newName', newSeats', by rw [hcall, ← hid', hid]⟩))
    obtain ⟨course', hmem', hid', hname', hseats'⟩ := hkept
    exact ⟨course', hmem', by rw [hid', hid], by rw [hname', hname], by rw [hseats', hseats]⟩
  | removeCourse => exact notMem_courseIds_step hhides h hseen
  | enrollCourse studentId courseId =>
    obtain ⟨out, hout, rfl⟩ := Option.map_eq_some_iff.mp h
    obtain heq | ⟨hcall, -⟩ | ⟨-, heq⟩ :=
      onRoster_sectionOn (hy.sound trivial) hout studentId courseId
    · exact heq.trans hseen
    · exact absurd hcall hhides
    · exact heq
  | unenrollCourse studentId courseId =>
    obtain ⟨out, hout, rfl⟩ := Option.map_eq_some_iff.mp h
    obtain heq | ⟨-, heq⟩ | ⟨hcall, -⟩ :=
      onRoster_sectionOn (hy.sound trivial) hout studentId courseId
    · exact heq.trans hseen
    · exact heq
    · exact absurd hcall hhides
  | _ => trivial

/-! ## The order of the sections -/

/-- The calls with a section on each of the two files. -/
def Call.TwoSections : Call → Prop
  | .removeCourse _ | .unenrollCourse _ _ => True
  | _ => False

omit [DecidableEq ι] in
/-- Any other call is before its section until it has returned. -/
theorem Place.sections_eq_zero {named : Option Nat} {call : Call} {rest : FileOp Int} {m : Nat}
    {o : Option Nat} {v : Option Int} (h : Place named call rest m o v)
    (hcall : ¬ call.TwoSections) (hrest : ∀ code, rest ≠ .ret code) : m = 0 := by
  cases h with
  | start | openedStudents | openedCourses => rfl
  | removed | sweeping | unrostered | unlisting => exact absurd trivial hcall
  | done => exact absurd rfl (hrest _)

theorem FileServer.sections_step {s s' : FileServer ι} {t : ι} (h : s.step t = some s') :
    s'.sections = s.sections ∨ s'.sections = Function.update s.sections t (s.sections t + 1) := by
  unfold FileServer.step at h
  split at h
  · cases h
  · split at h
    · obtain ⟨out, -, rfl⟩ := Option.map_eq_some_iff.mp h
      exact .inr rfl
    · obtain ⟨out, -, rfl⟩ := Option.map_eq_some_iff.mp h
      exact .inl rfl

variable {d : Disk} {history : List (Event (FileServer ι) ι)} {s : FileServer ι}

/-- The order has the sections that the sessions have done. -/
theorem mem_sectionOrder (hr : Run FileServer.step (.start d calls) history s) (t : ι) (m : Nat) :
    (t, m) ∈ sectionOrder history ↔ m < s.sections t := by
  induction hr with
  | start => simp [sectionOrder, FileServer.start]
  | @snoc history s s' u hr hs ih =>
    obtain hsame | hnext := FileServer.sections_step hs
    · rw [sectionOrder, List.filterMap_cons_none (by exact if_pos (congrFun hsame u)), hsame]
      exact ih
    · have hturn : sectionOf ⟨s, u, s'⟩ = some (u, s.sections u) :=
        if_neg (by dsimp only; rw [hnext, Function.update_self]; omega)
      rw [sectionOrder, List.filterMap_cons_some hturn, List.reverse_cons, List.mem_append,
        List.mem_singleton, Prod.mk.injEq, hnext]
      refine (or_congr_left ih).trans ?_
      by_cases hu : t = u
      · subst hu
        rw [Function.update_self]
        constructor
        · rintro (hlt | ⟨-, rfl⟩) <;> omega
        · intro hlt
          by_cases hm : m = s.sections t
          · exact .inr ⟨rfl, hm⟩
          · exact .inl (by omega)
      · simp [hu]

/-- Any call but `remove_course` and `unenroll_course` does one section. -/
theorem sections_le_one (hr : Run FileServer.step (.start d calls) history s)
    (hfresh : ∀ e ∈ history, Fresh e) {t : ι} (hcall : ¬ (calls t).TwoSections) :
    s.sections t ≤ 1 := by
  induction hr with
  | start => exact Nat.zero_le 1
  | @snoc history s s' u hr hs ih =>
    have hpast := fun e he => hfresh e (List.mem_cons_of_mem _ he)
    obtain hsame | hnext := FileServer.sections_step hs
    · rw [hsame]
      exact ih hpast
    · by_cases hu : t = u
      · subst hu
        obtain ⟨x, -, hsim⟩ := serial_of_run hr hpast
        have hzero := (hsim.place t).sections_eq_zero hcall fun code hrest => by
          rw [FileServer.step, hrest] at hs
          cases hs
        have hone : s'.sections t = 1 := by rw [hnext, Function.update_self, hzero]
        exact Nat.le_of_eq hone
      · rw [hnext, Function.update_of_ne hu]
        exact ih hpast

/-- The section on `courses.dat` of a call that has returned 0. -/
theorem exists_coursesSection (hr : Run FileServer.step (.start d calls) history s)
    (hfresh : ∀ e ∈ history, Fresh e)
    (hx : serial calls students courses (sectionOrder history) = some x) {t : ι}
    (hcode : x.code t = some 0) :
    ∃ earlier later y v z, sectionOrder history = earlier ++ (t, 0) :: later ∧
      serial calls students courses earlier = some y ∧
      (calls t).sectionOn y.students y.courses 0 = some (v, z.students, z.courses) ∧
      (v = some 0 ∨ ∃ s c, calls t = .unenrollCourse s c) ∧
      later.foldlM (Serial.step calls) z = some x := by
  obtain ⟨earlier, later, m, y, z, horder, hy, hz, hlater⟩ := decidedIn_of_code hx hcode
  have hmem := (mem_sectionOrder hr t m).mp (by rw [horder]; simp)
  by_cases hm : m = 0
  · subst hm
    exact ⟨earlier, later, y, _, z, horder, hy, hz, .inl rfl, hlater⟩
  · -- a later section decides for `unenroll_course` alone
    cases hcall : calls t with
    | unenrollCourse studentId courseId =>
      obtain ⟨earlier, later, horder⟩ :=
        List.append_of_mem ((mem_sectionOrder hr t 0).mpr (by omega))
      rw [horder, serial, List.foldlM_append] at hx
      obtain ⟨y, hy, hrest⟩ := Option.bind_eq_some_iff.mp hx
      rw [List.foldlM_cons] at hrest
      obtain ⟨z, hz, hlater⟩ := Option.bind_eq_some_iff.mp hrest
      obtain ⟨⟨v, students', courses'⟩, hsection, rfl⟩ := Option.map_eq_some_iff.mp hz
      rw [hcall] at hsection
      exact ⟨earlier, later, y, v, _, horder, hy, hsection, .inr ⟨_, _, rfl⟩, hlater⟩
    | removeCourse id =>
      obtain ⟨k, rfl⟩ := Nat.exists_eq_succ_of_ne_zero hm
      rw [hcall] at hz
      obtain ⟨swept, -, heq⟩ := Option.map_eq_some_iff.mp hz
      cases heq
    | _ =>
      have hle := sections_le_one hr hfresh (t := t) (by rw [hcall]; exact id)
      omega

/-! ## Runs -/

/-- If every first section on `courses.dat` finds the file that its call has opened under the
name, `courses.dat` holds what the sections leave one after another in the order in which they
took `file_sem`, the calls return 0 when these sections do, and a call that has returned 0 is
seen until a later section hides it. What is seen on a roster takes rosters that have nobody
twice at the start. -/
theorem courses_serial_of_fresh (hr : Run FileServer.step (.start d calls) history s)
    (hfresh : ∀ e ∈ history, Fresh e) :
    ∃ x, serial calls (d.students.content.getD []) (d.courses.content.getD [])
        (sectionOrder history) = some x ∧
      s.courses = x.courses ∧
      (∀ t code, s.Returned t code → (code = 0 ↔ x.code t = some 0)) ∧
      ∀ t, s.Returned t 0 → ∃ earlier later,
        sectionOrder history = earlier ++ (t, 0) :: later ∧
        (((calls t).EditsRoster → ∀ course ∈ d.courses.content.getD [], course.Sound) →
          (∀ turn ∈ later, ¬ (calls turn.1).Hides (calls t)) → (calls t).SeenIn s.courses) := by
  obtain ⟨x, hx, hsim⟩ := serial_of_run hr hfresh
  refine ⟨x, hx, hsim.courses, fun t code hret => hsim.code_iff hret, fun t hret => ?_⟩
  obtain ⟨earlier, later, y, v, z, horder, hy, hz, hv, hlater⟩ :=
    exists_coursesSection hr hfresh hx ((hsim.code_iff hret).mp rfl)
  refine ⟨earlier, later, horder, fun hstart hhides => ?_⟩
  have hsound : (calls t).EditsRoster → ∀ course ∈ y.courses, course.Sound := fun hedits =>
    foldlM_step_invariant (P := fun y => ∀ course ∈ y.courses, course.Sound)
      (fun turn _ y y' hstep hold => by
        obtain ⟨out, hout, rfl⟩ := Option.map_eq_some_iff.mp hstep
        exact sound_sectionOn hold hout) (hstart hedits) hy
  have hseen : (calls t).Seen z.courses :=
    ⟨fun hedits => sound_sectionOn (hsound hedits) hz, seenIn_sectionOn hsound hv hz⟩
  rw [hsim.courses]
  exact (foldlM_step_invariant (P := fun y => (calls t).Seen y.courses)
    (fun turn hturn _ _ hstep => Call.Seen.step (hhides turn hturn) hstep) hseen hlater).seen

/-! ## A course that is added to the old file -/

/-- Only `courses.dat` exists, with one course. -/
def oneCourse : Disk :=
  Disk.empty.setFile .courses (NamedFile.missing.rename
    [newCourse (.ofString "c1") (.ofString "Logic") (.ofString "f1") 1])

/-- One faculty member adds a course and another one removes the old course. -/
def addAndRemove : Bool → Call
  | false => .addCourse (.ofString "c2") (.ofString "Sets") (.ofString "f2") 1
  | true => .removeCourse (.ofString "c1")

omit [DecidableEq ι] in
theorem fresh_of_eq {e : Event (FileServer ι) ι}
    (h : e.before.sections e.label = 0 → e.before.opened e.label = none ∨
      e.before.opened e.label = e.before.disk.courses.named) : Fresh e := by
  intro hfirst fd hfd
  obtain h | h := h hfirst
  · rw [h] at hfd
    cases hfd
  · rw [← h, hfd]

/-- The course is added to the file that has just lost its name: `add_course` returns 0, and
`courses.dat` holds no course, but one after the sections one after another. -/
theorem renamed_file_loses_update : ¬ ∀ (d : Disk) (calls : Bool → Call)
    (history : List (Event (FileServer Bool) Bool)) (s : FileServer Bool),
    Run FileServer.step (.start d calls) history s → s.AllDone →
    ∃ x, serial calls (d.students.content.getD []) (d.courses.content.getD [])
      (sectionOrder history) = some x ∧ s.courses = x.courses := by
  intro hall
  have hreplay : ((replay FileServer.step [] (.start oneCourse addAndRemove)
      [false, true, true, true, false]).map fun out => decide
        ((∀ t, (out.2.answer t).isSome) ∧ out.2.courses.length = 0 ∧
          (serial addAndRemove [] (oneCourse.courses.content.getD [])
            (sectionOrder out.1)).map (fun x => x.courses.length) = some 1)) = some true := by
    decide +kernel
  obtain ⟨⟨history, s⟩, hout, hcheck⟩ := Option.map_eq_some_iff.mp hreplay
  obtain ⟨hdone, hcourses, hserial⟩ := of_decide_eq_true hcheck
  obtain ⟨x, hx, heq⟩ := hall oneCourse addAndRemove history s (replay_run .start hout)
    (fun t => FileServer.exists_returned (hdone t))
  have hstudents : oneCourse.students.content.getD [] = [] := rfl
  rw [hstudents] at hx
  rw [hx, Option.map_some, ← heq, hcourses] at hserial
  cases hserial

/-- The two calls one after the other. -/
theorem courses_serial_addAndRemove : ∃ history s,
    Run FileServer.step (.start oneCourse addAndRemove) history s ∧ s.AllDone ∧
    ∃ x, serial addAndRemove (oneCourse.students.content.getD [])
        (oneCourse.courses.content.getD []) (sectionOrder history) = some x ∧
      s.courses = x.courses ∧ ∀ t code, s.Returned t code → (code = 0 ↔ x.code t = some 0) := by
  have hreplay : ((replay FileServer.step [] (.start oneCourse addAndRemove)
      [true, true, true, false, false]).map fun out => decide
        ((∀ t, (out.2.answer t).isSome) ∧ ∀ e ∈ out.1, e.before.sections e.label = 0 →
          e.before.opened e.label = none ∨
            e.before.opened e.label = e.before.disk.courses.named)) = some true := by
    decide +kernel
  obtain ⟨⟨history, s⟩, hout, hcheck⟩ := Option.map_eq_some_iff.mp hreplay
  obtain ⟨hdone, hfresh⟩ := of_decide_eq_true hcheck
  have hr := replay_run .start hout
  obtain ⟨x, hx, hcourses, hcodes, -⟩ :=
    courses_serial_of_fresh hr fun e he => fresh_of_eq (hfresh e he)
  exact ⟨history, s, hr, fun t => FileServer.exists_returned (hdone t), x, hx, hcourses, hcodes⟩

end AcademiaCr.Academia
