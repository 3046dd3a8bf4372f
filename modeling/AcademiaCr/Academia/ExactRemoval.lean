import Mathlib.Data.List.Forall2
import Mathlib.Data.List.Nodup
import AcademiaCr.Library.OpenFile
import AcademiaCr.Academia.WellFormed

/-!
# What removing a course removes

`remove_course` copies the other courses to a new file, and sweeps over `students.dat` in place.
The loops read, seek and write at the position of an open file; with them the files end up as
the program leaves them. One course goes, and every slot with its id is cleared, unless an id of
`MAX_ID` bytes meets an array that it fills: then the comparison runs on behind the array.

## Main definitions

- `Student.Drops`: a student after all slots with a course have been cleared
- `Tables.Removed`: the files after a course has been removed
- `Tables.removeInPlace`: `remove_course` on open files
- `Disk.execute_removeCourse_inPlace`: the program leaves what it leaves
- `Tables.RemovesWithin`: the comparisons of the call stay within the arrays
- `Disk.RemovesExactly`: what the complete call does
- `Disk.removesExactly_iff`: it does so if its comparisons stay within the arrays
-/

namespace AcademiaCr.Academia

open CLang RecordFile

/-- All slots with the course are cleared. The other slots stay as they are, as does the rest of
the record. -/
structure Student.Drops (courseId : CString) (student student' : Student) : Prop where
  rest : student' = { student with enrolledCourses := student'.enrolledCourses }
  slots : List.Forall₂ (fun slot slot' => slot' = if slot.str = courseId then zeros else slot)
    student.enrolledCourses.toList student'.enrolledCourses.toList
  unlisted : ∀ slot ∈ student'.enrolledCourses.toList, slot.str ≠ courseId

/-- The course is gone, the others stay as they are and in order. Every student drops the course,
in a file that is as long as it was. -/
structure Tables.Removed (t t' : Tables) (id : CString) : Prop where
  courses : ∃ before course after, t.courses = some (before ++ course :: after) ∧
    t'.courses = some (before ++ after) ∧ course.hasId id = true ∧
    ∀ other ∈ before ++ after, other.hasId id = false
  students : Option.Rel (List.Forall₂ (Student.Drops id)) t.students t'.students

/-! ## The two files -/

section Files

variable {id : CString}

/-- Clearing the slots of a student, if the id is not that of an empty slot. -/
theorem drops_clear (hid : id ≠ .empty) (student : Student) :
    student.Drops id (student.clear id) := by
  refine ⟨rfl, ?_, ?_⟩
  · apply List.forall₂_map_right_iff.mpr
    exact List.forall₂_same.mpr fun _ _ => rfl
  · intro slot hslot
    obtain ⟨old, -, rfl⟩ := List.mem_map.mp hslot
    split
    · rw [str_zeros]
      exact hid.symm
    · assumption

/-- With ids that differ, one course has the id, and the others are what is left. -/
theorem others_of_nodup {courses : List Course} (hids : (courses.map (·.id.str)).Nodup)
    (hfound : courses.any (Course.hasId id) = true) :
    ∃ before course after, courses = before ++ course :: after ∧
      others id courses = before ++ after ∧ course.hasId id = true ∧
      ∀ other ∈ before ++ after, other.hasId id = false := by
  obtain ⟨course, hmem, hid⟩ := List.any_eq_true.mp hfound
  obtain ⟨before, after, rfl⟩ := List.append_of_mem hmem
  have hother : ∀ other ∈ before ++ after, other.hasId id = false := by
    rw [List.map_append, List.map_cons, List.nodup_middle, ← List.map_append] at hids
    intro other hmem
    have hne : other.id.str ≠ course.id.str := fun h =>
      (List.nodup_cons.mp hids).1 (h ▸ List.mem_map_of_mem hmem)
    have hcourse : course.id.str = id := by simpa [Course.hasId] using hid
    simpa [Course.hasId, ← hcourse] using hne
  have hkept : others id (before ++ after) = before ++ after := by
    apply others_eq_self
    rw [List.any_eq_false]
    simpa using hother
  refine ⟨before, course, after, rfl, ?_, hid, hother⟩
  rw [← hkept]
  simp [others, hid]

namespace Tables

variable {t : Tables} {courses : List Course}

/-- The comparisons with the ids of the courses, and then with the slots of the students, stay
within the arrays. -/
def RemovesWithin (t : Tables) (id : CString) : Prop :=
  t.courses ≠ none → (∀ course ∈ t.courseRecords, ¬ course.id.Overrun id) ∧
    ∀ student ∈ t.studentRecords, ∀ slot ∈ student.enrolledCourses.toList, ¬ slot.Overrun id

/-- `remove_course` returns exactly if its comparisons stay within the arrays. -/
theorem exists_remove_iff : (∃ out, t.remove id = some out) ↔ t.RemovesWithin id := by
  constructor
  · rintro ⟨out, hremove⟩ hcourses
    obtain ⟨records, hrecords⟩ := Option.ne_none_iff_exists'.mp hcourses
    rw [remove, hrecords] at hremove
    obtain ⟨found, hfound, hremove⟩ := Option.bind_eq_some_iff.mp hremove
    obtain ⟨students, hstudents, -⟩ := Option.map_eq_some_iff.mp hremove
    rw [courseRecords, hrecords, Option.getD_some]
    constructor
    · intro course hcourse hover
      rw [removeFrom, locate?_course, if_pos ⟨course, hcourse, hover⟩] at hfound
      cases hfound
    · intro student hstudent slot hslot hover
      cases hold : t.students with
      | none =>
        rw [studentRecords, hold] at hstudent
        cases hstudent
      | some old =>
        rw [studentRecords, hold, Option.getD_some] at hstudent
        rw [hold, sweepStudents, sweepIn_eq_ite,
          if_pos ⟨student, hstudent, slot, hslot, hover⟩] at hstudents
        cases hstudents
  · intro hwithin
    cases hcourses : t.courses with
    | none => exact ⟨_, by rw [remove, hcourses]⟩
    | some records =>
      obtain ⟨hids, hslots⟩ := hwithin (by rw [hcourses]; exact Option.some_ne_none records)
      exact exists_remove hids hslots

variable {code : Int} {t' : Tables}

/-- `remove_course` returns 0 if and only if it finds the course. -/
theorem remove_eq_zero (h : t.remove id = some (code, t')) :
    code = 0 ↔ ∃ course ∈ t.courseRecords, course.hasId id = true := by
  obtain ⟨hcourses, rfl, -⟩ | ⟨records, hcourses, rfl, -⟩ := remove_cases h
  · simp [courseRecords, hcourses]
  · rw [courseRecords, hcourses, Option.getD_some]
    simp

/-- The files that it leaves then. -/
theorem removed_remove (hids : (t.courseRecords.map (·.id.str)).Nodup) (hid : id ≠ .empty)
    (h : t.remove id = some (0, t')) : t.Removed t' id := by
  have hfound := List.any_eq_true.mpr ((remove_eq_zero h).mp rfl)
  obtain ⟨-, hcode, -⟩ | ⟨records, hcourses, -, rfl⟩ := remove_cases h
  · cases hcode
  · rw [courseRecords, hcourses, Option.getD_some] at hids hfound
    obtain ⟨before, course, after, rfl, hothers, hhas, hother⟩ := others_of_nodup hids hfound
    rw [hothers]
    refine ⟨⟨before, course, after, hcourses, rfl, hhas, hother⟩, ?_⟩
    cases t.students with
    | none => exact .none
    | some students =>
      refine .some (List.forall₂_map_right_iff.mpr ?_)
      exact List.forall₂_same.mpr fun student _ => drops_clear hid student

end Tables

end Files

/-! ## The loops on the open files -/

/-- The loops of `remove_course` on `courses.dat`, with at most `fuel` rounds each: whether the
course has been found, and the records under the name afterwards. -/
def removeFromFile (fuel : Nat) (id : CString) (courses : List Course) :
    Option (Bool × List Course) :=
  (OpenFile.search (Course.strcmpId id) fuel (.start courses)).bind fun
  | (false, fd) => some (false, fd.records)
  | (true, fd) =>
    (OpenFile.copy (fun course => (course.strcmpId id).map (!·)) fuel (fd.lseek 0)
      (.start [])).map fun out => (true, out.2.records)

/-- The loop of `remove_course` on `students.dat`. -/
def clearInFile (fuel : Nat) (id : CString) (students : List Student) : Option (List Student) :=
  (OpenFile.sweep
    (fun student =>
      (student.enrolledCourses.toList.mapM (strcmpEntry id)).map (·.contains true))
    (Student.clear · id) fuel 0 (.start students)).map (·.records)

/-- `remove_course` on open files. -/
def Tables.removeInPlace (fuel : Nat) (t : Tables) (id : CString) : Option (Int × Tables) :=
  match t.courses with
  | none => some (-1, t)
  | some courses => (removeFromFile fuel id courses).bind fun out =>
    let code := if out.1 then 0 else -1
    match t.students with
    | none => some (code, ⟨none, some out.2⟩)
    | some students => (clearInFile fuel id students).map fun students' =>
      (code, ⟨some students', some out.2⟩)

section InPlace

variable {fuel : Nat}

theorem removeFromFile_eq {courses : List Course} (hfuel : courses.length < fuel) (id : CString) :
    removeFromFile fuel id courses = removeFrom id courses := by
  have hsearch := OpenFile.search_between (p := Course.strcmpId id) [] hfuel
  rw [List.nil_append] at hsearch
  rw [removeFromFile, OpenFile.start_eq, OpenFile.start_eq, removeFrom]
  cases hfound : locate? (Course.strcmpId id) courses with
  | none =>
    rw [hfound] at hsearch
    rw [Option.map_eq_none_iff.mp hsearch]
    rfl
  | some found =>
    have hany := isSome_of_locate? hfound
    rw [hfound, Option.map_some] at hsearch
    obtain ⟨⟨b, fd⟩, hrun, heq⟩ := Option.map_eq_some_iff.mp hsearch
    obtain ⟨rfl, rfl⟩ : b = found.isSome ∧ fd.records = courses := Prod.mk.inj heq
    rw [hrun, Option.bind_some, Option.map_some]
    cases found with
    | none =>
      rw [others_eq_self hany.symm]
      rfl
    | some found =>
      -- the copy compares the id that the search has found
      have hlength := length_of_locate?_course hfound
      have hcopy := OpenFile.copy_between (p := fun course => (course.strcmpId id).map (!·))
        (q := fun course : Course => !course.hasId id) [] []
        (fun course _ => congrArg (Option.map (!·)) (CArray.strcmp_of_not_overrun
          (CArray.not_overrun_of_lt hlength course.id))) hfuel
      dsimp only [Option.isSome_some]
      rw [OpenFile.lseek_zero, hcopy]
      simp [others]

/-- The sweep writes over the records that it changes, each at its own position. -/
theorem clearInFile_eq {students : List Student} (hfuel : students.length < fuel)
    (id : CString) : clearInFile fuel id students = sweepIn id students := by
  have hsweep := OpenFile.sweep_between
    (p := fun student : Student =>
      (student.enrolledCourses.toList.mapM (strcmpEntry id)).map (·.contains true))
    (f := (Student.clear · id)) [] hfuel
  have hclear : ∀ student : Student,
      ((student.enrolledCourses.toList.mapM (strcmpEntry id)).map (·.contains true)).map
        (fun edited => if edited then student.clear id else student) =
      (student.enrolledCourses.toList.mapM (strcmpEntry id)).map fun _ => student.clear id := by
    intro student
    rw [mapM_strcmpEntry]
    split
    · rfl
    · rw [Option.map_some, Option.map_some, Option.map_some, contains_entryIs]
      split
      · rfl
      · next hholds => rw [student.clear_eq_self (Bool.of_not_eq_true hholds)]
  rw [clearInFile, OpenFile.start_eq]
  refine (congrArg (Option.map _) hsweep).trans ?_
  rw [Option.map_map, sweepIn, funext hclear]
  simp [Function.comp_def]

/-- The loops end, and the files hold what the complete call leaves in them. -/
theorem Tables.removeInPlace_eq {t : Tables} (hstudents : t.studentRecords.length < fuel)
    (hcourses : t.courseRecords.length < fuel) (id : CString) :
    t.removeInPlace fuel id = t.remove id := by
  obtain ⟨students, courses⟩ := t
  cases courses with
  | none => rfl
  | some courses =>
    have hlength : courses.length < fuel := hcourses
    have hremoved := removeFromFile_eq hlength id
    simp only [removeInPlace, remove, hremoved]
    refine Option.bind_congr fun out _ => ?_
    cases students with
    | none => rfl
    | some students =>
      have hlength : students.length < fuel := hstudents
      have hcleared := clearInFile_eq hlength id
      dsimp only
      rw [hcleared, sweepStudents, Option.map_map]
      rfl

end InPlace

namespace Disk

variable {d : Disk}

/-- The program of `remove_course` leaves what the loops on the open files leave. -/
theorem execute_removeCourse_inPlace {fuel : Nat}
    (hstudents : d.tables.studentRecords.length < fuel)
    (hcourses : d.tables.courseRecords.length < fuel) (id : CString) :
    (d.execute (removeCourse id)).map (fun out => (out.1, out.2.tables)) =
      d.tables.removeInPlace fuel id :=
  (computes_removeCourse id).trans (Tables.removeInPlace_eq hstudents hcourses id).symm

/-- The call has a result. It is 0 if and only if there is such a course, and then the course and
every reference to it are removed, and nothing else. -/
def RemovesExactly (d : Disk) (id : CString) : Prop :=
  ∃ code d', d.execute (removeCourse id) = some (code, d') ∧
    (code = 0 ↔ ∃ course ∈ d.tables.courseRecords, course.hasId id = true) ∧
    (code = 0 → d.tables.Removed d'.tables id)

/-- For all files whose courses have different ids, and every id but the empty one:
`remove_course` is exact if and only if its comparisons stay within the arrays. -/
theorem removesExactly_iff (d : Disk) (hids : (d.tables.courseRecords.map (·.id.str)).Nodup)
    (id : CString) (hid : id ≠ .empty) : d.RemovesExactly id ↔ d.tables.RemovesWithin id := by
  have hcomputes : (d.execute (removeCourse id)).map (fun out => (out.1, out.2.tables)) =
      d.tables.remove id := computes_removeCourse id
  rw [← Tables.exists_remove_iff]
  constructor
  · rintro ⟨code, d', hrun, -⟩
    exact ⟨(code, d'.tables), by rw [← hcomputes, hrun]; rfl⟩
  · rintro ⟨out, hremove⟩
    rw [hremove] at hcomputes
    obtain ⟨⟨code, d'⟩, hrun, rfl⟩ := Option.map_eq_some_iff.mp hcomputes
    refine ⟨code, d', hrun, Tables.remove_eq_zero hremove, ?_⟩
    rintro rfl
    exact Tables.removed_remove hids hid hremove

/-- A student whose first slot is filled by the id of a course, in front of another one. -/
def fullSlot : Student :=
  { newStudent (.ofString "s1") (.ofString "Ann") with
    enrolledCourses :=
      ⟨[strncpy maxId (.ofString "course0001"), strncpy maxId (.ofString "c2")] ++
        List.replicate (maxCourses - 2) zeros, by simp [maxCourses]⟩ }

/-- The two courses, and the student. -/
def withFullSlot : Disk :=
  { empty with
    students := NamedFile.missing.rename [fullSlot],
    courses := NamedFile.missing.rename
      [newCourse (.ofString "course0001") .empty (.ofString "f1") 1,
        newCourse (.ofString "c2") (.ofString "Sets") (.ofString "f1") 1] }

/-- The comparison with the first slot runs on into the second one. -/
theorem fullSlot_not_removed : ¬ ∀ (d : Disk) (id : CString),
    (d.tables.courseRecords.map (·.id.str)).Nodup → id ≠ .empty → d.RemovesExactly id := by
  intro hall
  have hids : (withFullSlot.tables.courseRecords.map (·.id.str)).Nodup := by decide +kernel
  have hexact := hall withFullSlot (.ofString "course0001") hids (by decide)
  rw [removesExactly_iff withFullSlot hids _ (by decide)] at hexact
  have hcourses : withFullSlot.tables.courses ≠ none := Option.some_ne_none _
  have hslot : ¬ (strncpy maxId (.ofString "course0001")).Overrun (.ofString "course0001") :=
    (hexact hcourses).2 fullSlot List.mem_cons_self _ List.mem_cons_self
  exact hslot (by decide)

/-- The bytes of the record from the first slot on, up to a NUL. -/
example : (fullSlot.enrolledCourses.toList.flatMap CArray.toList).takeWhile (· ≠ 0) =
    (CString.ofString "course0001c2").1 := by
  decide +kernel

/-- A student takes two courses. -/
def twoCourses : List Call :=
  [.addStudent (.ofString "s1") (.ofString "Ann"),
    .addCourse (.ofString "c1") (.ofString "Logic") (.ofString "f1") 1,
    .addCourse (.ofString "c2") (.ofString "Sets") (.ofString "f1") 1,
    .enrollCourse (.ofString "s1") (.ofString "c1"),
    .enrollCourse (.ofString "s1") (.ofString "c2")]

theorem removesExactly_iff_twoCourses : ∃ d, empty.performAll twoCourses = some d ∧
    (d.execute (removeCourse (.ofString "c1"))).map (·.1) = some 0 ∧
    d.RemovesExactly (.ofString "c1") := by
  have hcheck : ((empty.performAll twoCourses).map fun d =>
      decide ((d.tables.courseRecords.map (·.id.str)).Nodup ∧
        (d.execute (removeCourse (.ofString "c1"))).map (·.1) = some 0)) = some true := by
    decide +kernel
  obtain ⟨d, hd, hcheck⟩ := Option.map_eq_some_iff.mp hcheck
  obtain ⟨hids, hzero⟩ := of_decide_eq_true hcheck
  have hshort : (CString.ofString "c1").length < maxId := by decide
  refine ⟨d, hd, hzero, (removesExactly_iff d hids (.ofString "c1") (by decide)).mpr
    fun _ => ⟨?_, ?_⟩⟩
  · exact fun course _ => CArray.not_overrun_of_lt hshort course.id
  · exact fun _ _ slot _ => CArray.not_overrun_of_lt hshort slot

end Disk

end AcademiaCr.Academia
