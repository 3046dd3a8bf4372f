import AcademiaCr.Academia.FileOps

/-!
# What the sections do to the files

A section is what an operation does from a `sem_wait` to the next `sem_post`. Here each section
is a function on the contents of the files it has opened, and the programs of `FileOps` are
shown to compute it, on whichever inodes they have opened.

## Main definitions

- `Course.hasId`, `Student.hasId`, `entryIs`: what the comparisons of ids tell
- `addCourseTo`, `overwriteIn`, `enrollIn`, `unenrollFrom`, …: the sections on contents
- `Disk.runSection`: execute a program up to its next `sem_post`
- `runSection_addCourse`, …: the programs compute the sections
-/

namespace AcademiaCr.Academia

open CLang RecordFile Resumption Prog

variable {α β : Type}

/-! ## Ids -/

/-- The id of the course. -/
def Course.hasId (id : CString) (course : Course) : Bool := course.id.str = id

/-- The id of the student. -/
def Student.hasId (id : CString) (student : Student) : Bool := student.id.str = id

/-- The id in an entry of a roster or in a slot of a student. -/
def entryIs (id : CString) (entry : Id) : Bool := entry.str = id

/-- A slot holds the course. -/
def Student.holds (student : Student) (id : CString) : Bool :=
  student.enrolledCourses.toList.any (entryIs id)

section Ids

variable {id : CString}

theorem Course.hasId_of_strcmp (course : Course) (b : Bool) (h : course.strcmpId id = some b) :
    course.hasId id = b := CArray.decide_str_of_strcmp h

theorem Student.hasId_of_strcmp (student : Student) (b : Bool)
    (h : student.strcmpId id = some b) : student.hasId id = b := CArray.decide_str_of_strcmp h

theorem entryIs_of_strcmp (entry : Id) (b : Bool) (h : strcmpEntry id entry = some b) :
    entryIs id entry = b := CArray.decide_str_of_strcmp h

theorem locate?_course (id : CString) (courses : List Course) :
    locate? (Course.strcmpId id) courses =
      if ∃ course ∈ courses, course.id.Overrun id then none
      else some (locate (Course.hasId id) courses) := CArray.locate?_strcmp Course.id id courses

theorem locate?_student (id : CString) (students : List Student) :
    locate? (Student.strcmpId id) students =
      if ∃ student ∈ students, student.id.Overrun id then none
      else some (locate (Student.hasId id) students) := CArray.locate?_strcmp Student.id id students

theorem locate?_entry (id : CString) (entries : List Id) :
    locate? (strcmpEntry id) entries =
      if ∃ entry ∈ entries, entry.Overrun id then none
      else some (locate (entryIs id) entries) :=
  CArray.locate?_strcmp (fun entry : Id => entry) id entries

/-- Comparisons that stay within the arrays. -/
theorem locate?_course_of_within {courses : List Course}
    (h : ∀ course ∈ courses, ¬ course.id.Overrun id) :
    locate? (Course.strcmpId id) courses = some (locate (Course.hasId id) courses) :=
  locate?_of_forall fun course hcourse => CArray.strcmp_of_not_overrun (h course hcourse)

theorem locate?_student_of_within {students : List Student}
    (h : ∀ student ∈ students, ¬ student.id.Overrun id) :
    locate? (Student.strcmpId id) students = some (locate (Student.hasId id) students) :=
  locate?_of_forall fun student hstudent => CArray.strcmp_of_not_overrun (h student hstudent)

theorem locate?_entry_of_within {entries : List Id} (h : ∀ entry ∈ entries, ¬ entry.Overrun id) :
    locate? (strcmpEntry id) entries = some (locate (entryIs id) entries) :=
  locate?_of_forall fun entry hentry => CArray.strcmp_of_not_overrun (h entry hentry)

/-- An id that a search finds leaves room for its NUL. -/
theorem length_of_locate?_course {courses : List Course} {pos : Nat} {course : Course}
    (h : locate? (Course.strcmpId id) courses = some (some (pos, course))) :
    id.length < maxId := by
  have hid : course.strcmpId id = some true := eq_true_of_locate? h
  exact CArray.length_lt_of_strcmp hid

theorem length_of_locate?_student {students : List Student} {pos : Nat} {student : Student}
    (h : locate? (Student.strcmpId id) students = some (some (pos, student))) :
    id.length < maxId := by
  have hid : student.strcmpId id = some true := eq_true_of_locate? h
  exact CArray.length_lt_of_strcmp hid

/-- The comparisons with all entries of an array. -/
theorem mapM_strcmpEntry (id : CString) (entries : List Id) :
    entries.mapM (strcmpEntry id) =
      if ∃ entry ∈ entries, entry.Overrun id then none else some (entries.map (entryIs id)) :=
  mapM_eq_ite (fun entry => CArray.strcmp_eq entry id) entries

theorem contains_entryIs (student : Student) (id : CString) :
    (student.enrolledCourses.toList.map (entryIs id)).contains true = student.holds id := by
  rw [Student.holds, Bool.eq_iff_iff, List.any_eq_true]
  simp

end Ids

/-! ## The sections on contents -/

/-- The section of `add_course`. -/
def addCourseTo (id name facultyId : CString) (seats : Int) (records : List Course) :
    Option (Int × List Course) :=
  (locate? (Course.strcmpId id) records).map fun found =>
    if found.isSome then (-1, records) else (0, records ++ [newCourse id name facultyId seats])

/-- The section of an operation that overwrites a record. -/
def overwriteIn {ρ : Type} (found : ρ → Option Bool) (edit : ρ → Option ρ) (records : List ρ) :
    Option (Int × List ρ) :=
  (locate? found records).bind fun
    | none => some (-1, records)
    | some (pos, r) => (edit r).map fun r' => (0, records.set pos r')

/-- The records that the first section of `remove_course` copies. -/
def others (id : CString) (records : List Course) : List Course :=
  records.filter fun course => !course.hasId id

/-- The first section of `remove_course`: whether it finds the course, and the records that it
leaves. -/
def removeFrom (id : CString) (records : List Course) : Option (Bool × List Course) :=
  (locate? (Course.strcmpId id) records).map fun found => (found.isSome, others id records)

/-- The second section of `remove_course`. -/
def sweepIn (id : CString) (students : List Student) : Option (List Student) :=
  students.mapM fun student =>
    (student.enrolledCourses.toList.mapM (strcmpEntry id)).map fun _ => student.clear id

/-- The part of `enroll_course` after the checks on the student. -/
def enrollSlotIn (studentId courseId : CString) (spos : Nat) (student : Student)
    (emptySlot : Nat) (students : List Student) :
    Option (List Course) → Option (Int × List Student × Option (List Course))
  | none => some (-1, students, none)
  | some records => (locate? (Course.strcmpId courseId) records).bind fun
    | none => some (errCourseNotFound, students, some records)
    | some (cpos, course) =>
      if course.enrolledCount ≥ course.totalSeats then some (errFull, students, some records)
      else
        match course.enrolledStudents.search (strcmpEntry studentId) 0
            course.enrolledCount.toNat with
        | none => none
        | some (some _) => some (errAlreadyEnrolled, students, some records)
        | some none =>
          (student.enrolledCourses.set? emptySlot (strncpy maxId courseId)).bind fun slots =>
          (course.enrolledStudents.set? course.enrolledCount (strncpy maxId studentId)).map
            fun roster =>
              (0, students.set spos { student with enrolledCourses := slots },
                some (records.set cpos
                  { course with
                    enrolledStudents := roster, enrolledCount := course.enrolledCount + 1 }))

/-- The section of `enroll_course`. -/
def enrollIn (studentId courseId : CString) (students : List Student)
    (courses : Option (List Course)) : Option (Int × List Student × Option (List Course)) :=
  (locate? (Student.strcmpId studentId) students).bind fun
  | none => some (errNotFound, students, courses)
  | some (spos, student) =>
    if student.active = 0 then some (errInvalidInput, students, courses)
    else
      match scanSlots courseId student.enrolledCourses.toList 0 none with
      | none => none
      | some (true, _) => some (errAlreadyEnrolled, students, courses)
      | some (false, none) => some (errFull, students, courses)
      | some (false, some emptySlot) =>
        enrollSlotIn studentId courseId spos student emptySlot students courses

/-- The first section of `unenroll_course`. -/
def unenrollFrom (studentId courseId : CString) (records : List Course) : Option (List Course) :=
  (locate? (Course.strcmpId courseId) records).bind fun
  | none => some records
  | some (pos, course) =>
    match course.enrolledStudents.search (strcmpEntry studentId) 0 course.enrolledCount.toNat with
    | none => none
    | some none => some records
    | some (some i) => (course.shift i).map fun roster =>
      records.set pos
        { course with enrolledStudents := roster, enrolledCount := course.enrolledCount - 1 }

/-- The second section of `unenroll_course`. -/
def unenrollIn (studentId courseId : CString) (records : List Student) :
    Option (Int × List Student) :=
  (locate? (Student.strcmpId studentId) records).bind fun
  | none => some (-1, records)
  | some (pos, student) =>
    (locate? (strcmpEntry courseId) student.enrolledCourses.toList).bind fun
    | none => some (errNotEnrolled, records)
    | some (i, _) => (student.enrolledCourses.set? i zeros).map fun slots =>
      (0, records.set pos { student with enrolledCourses := slots })

/-! ## What the sections of `add_course` and `remove_course` can do -/

section Courses

variable {id name facultyId : CString} {seats : Int} {records : List Course}

theorem isSome_of_locate? {x : Option (Nat × Course)}
    (h : locate? (Course.strcmpId id) records = some x) :
    x.isSome = records.any (Course.hasId id) := by
  rw [← locate_of_locate? (q := Course.hasId id) Course.hasId_of_strcmp h, isSome_locate]

/-- `add_course` finds the id, or appends the course. -/
theorem addCourseTo_cases {out : Int × List Course}
    (h : addCourseTo id name facultyId seats records = some out) :
    (records.any (Course.hasId id) = true ∧ out = (-1, records)) ∨
      (records.any (Course.hasId id) = false ∧
        out = (0, records ++ [newCourse id name facultyId seats])) := by
  obtain ⟨x, hx, rfl⟩ := Option.map_eq_some_iff.mp h
  rw [isSome_of_locate? hx]
  cases records.any (Course.hasId id) with
  | true => exact .inl ⟨rfl, rfl⟩
  | false => exact .inr ⟨rfl, rfl⟩

theorem removeFrom_eq {out : Bool × List Course} (h : removeFrom id records = some out) :
    out = (records.any (Course.hasId id), others id records) := by
  obtain ⟨x, hx, rfl⟩ := Option.map_eq_some_iff.mp h
  rw [isSome_of_locate? hx]

/-- The loop of `remove_course` over `students.dat`. -/
theorem sweepIn_eq_ite (id : CString) (students : List Student) :
    sweepIn id students =
      if ∃ student ∈ students, ∃ slot ∈ student.enrolledCourses.toList, slot.Overrun id then none
      else some (students.map (·.clear id)) := by
  refine mapM_eq_ite (fun student => ?_) students
  rw [mapM_strcmpEntry]
  split <;> rfl

theorem sweepIn_of_within {students : List Student}
    (h : ∀ student ∈ students, ∀ slot ∈ student.enrolledCourses.toList, ¬ slot.Overrun id) :
    sweepIn id students = some (students.map (·.clear id)) := by
  rw [sweepIn_eq_ite, if_neg]
  rintro ⟨student, hstudent, slot, hslot, hover⟩
  exact h student hstudent slot hslot hover

theorem sweepIn_eq {students out : List Student} (h : sweepIn id students = some out) :
    out = students.map (·.clear id) := by
  rw [sweepIn_eq_ite] at h
  split at h
  · cases h
  · exact (Option.some.inj h).symm

end Courses

/-- A student whose slots do not hold the course keeps them. -/
theorem Student.clear_eq_self {student : Student} {id : CString} (h : student.holds id = false) :
    student.clear id = student := by
  have hslots : student.enrolledCourses.map (fun slot => if slot.str = id then zeros else slot) =
      student.enrolledCourses := by
    refine CArray.map_eq_self fun slot hslot => if_neg ?_
    have hne := (List.any_eq_false.mp h) slot hslot
    simpa [entryIs] using hne
  rw [clear, hslots]

theorem others_eq_self {id : CString} {records : List Course}
    (h : records.any (Course.hasId id) = false) : others id records = records := by
  rw [others, List.filter_eq_self]
  intro course hcourse
  simpa using (List.any_eq_false.mp h) course hcourse

theorem enrollSlotIn_isSome {studentId courseId : CString} {spos emptySlot : Nat}
    {student : Student} {students : List Student} {courses : Option (List Course)}
    {out : Int × List Student × Option (List Course)}
    (h : enrollSlotIn studentId courseId spos student emptySlot students courses = some out) :
    out.2.2.isSome = courses.isSome := by
  unfold enrollSlotIn at h
  split at h
  · cases h
    rfl
  · obtain ⟨found, -, h⟩ := Option.bind_eq_some_iff.mp h
    split at h
    · cases h
      rfl
    · split at h
      · cases h
        rfl
      · split at h
        · cases h
        · cases h
          rfl
        · obtain ⟨slots, -, h⟩ := Option.bind_eq_some_iff.mp h
          obtain ⟨roster, -, rfl⟩ := Option.map_eq_some_iff.mp h
          rfl

/-- `enroll_course` neither creates nor removes `courses.dat`. -/
theorem enrollIn_isSome {studentId courseId : CString} {students : List Student}
    {courses : Option (List Course)} {out : Int × List Student × Option (List Course)}
    (h : enrollIn studentId courseId students courses = some out) :
    out.2.2.isSome = courses.isSome := by
  obtain ⟨found, -, h⟩ := Option.bind_eq_some_iff.mp h
  split at h
  · cases h
    rfl
  · split at h
    · cases h
      rfl
    · split at h
      · cases h
      · cases h
        rfl
      · cases h
        rfl
      · exact enrollSlotIn_isSome h

/-! ## Executing a section -/

def Syscall.isWait : Syscall β → Bool
  | .semWait => true
  | _ => false

def Syscall.isPost : Syscall β → Bool
  | .semPost => true
  | _ => false

namespace Disk

variable {d : Disk}

/-- Write other records to an inode of `students.dat`. -/
def setStudents (d : Disk) (fd : Nat) (records : List Student) : Disk :=
  { d with students := d.students.update fd records }

/-- Write other records to an inode of `courses.dat`. -/
def setCourses (d : Disk) (fd : Nat) (records : List Course) : Disk :=
  { d with courses := d.courses.update fd records }

@[simp] theorem setStudents_read (d : Disk) (fd : Nat) :
    d.setStudents fd (d.students.read fd) = d := by
  rw [setStudents, NamedFile.update_read]

@[simp] theorem setCourses_read (d : Disk) (fd : Nat) :
    d.setCourses fd (d.courses.read fd) = d := by
  rw [setCourses, NamedFile.update_read]

/-- Execute a program up to its next `sem_post`. -/
def runSection (d : Disk) (p : FileOp α) : Option (FileOp α × Disk) :=
  p.segment Disk.exec Syscall.isPost d

theorem runSection_openFile (f : FileName) (create : Bool) (next : Option Nat → FileOp α) :
    d.runSection ((perform (.openFile f create)).bind next) =
      (d.setFile f ((d.file f).openFile create).2).runSection
        (next ((d.file f).openFile create).1) := rfl

theorem runSection_semWait (next : Unit → FileOp α) :
    d.runSection ((perform .semWait).bind next) = d.runSection (next ()) := rfl

theorem runSection_read (f : FileName) (fd : Nat) (next : List f.Record → FileOp α) :
    d.runSection ((perform (.read f fd)).bind next) =
      d.runSection (next ((d.file f).read fd)) := rfl

theorem runSection_readStudents (fd : Nat) (next : List Student → FileOp α) :
    d.runSection ((readStudents fd).bind next) = d.runSection (next (d.students.read fd)) := rfl

theorem runSection_readCourses (fd : Nat) (next : List Course → FileOp α) :
    d.runSection ((readCourses fd).bind next) = d.runSection (next (d.courses.read fd)) := rfl

theorem runSection_write (f : FileName) (fd pos : Nat) (r : f.Record)
    (next : Unit → FileOp α) :
    d.runSection ((perform (.write f fd pos r)).bind next) =
      (d.setFile f ((d.file f).update fd (((d.file f).read fd).set pos r))).runSection
        (next ()) := rfl

theorem runSection_release (code : β) (next : β → FileOp α) :
    d.runSection ((release code).bind next) = some (next code, d) := rfl

theorem runSection_access (x : Option β) (next : β → FileOp α) :
    d.runSection ((access x).bind next) = x.bind fun a => d.runSection (next a) := by
  cases x <;> rfl

/-! ## The programs compute the sections -/

theorem runSection_append (f : FileName) (r : f.Record) (fd : Nat) (next : Int → FileOp α) :
    d.runSection ((appendSection f r fd).bind next) =
      some (next 0, d.setFile f ((d.file f).update fd ((d.file f).read fd ++ [r]))) := rfl

theorem runSection_addCourse (id name facultyId : CString) (seats : Int) (fd : Nat)
    (next : Int → FileOp α) :
    d.runSection ((addCourseSection id name facultyId seats fd).bind next) =
      (addCourseTo id name facultyId seats (d.courses.read fd)).map fun out =>
        (next out.1, d.setCourses fd out.2) := by
  rw [addCourseSection, addCourseTo, bind_eq, Prog.bind_assoc, runSection_semWait, bind_eq,
    Prog.bind_assoc, runSection_readCourses, bind_eq, Prog.bind_assoc, runSection_access]
  rcases locate? (Course.strcmpId id) (d.courses.read fd) with _ | _ | found
  · rfl
  · rfl
  · rw [Option.bind_some]
    dsimp only
    rw [runSection_release]
    simp

theorem runSection_overwrite (f : FileName) (found : f.Record → Option Bool)
    (edit : f.Record → Option f.Record) (fd : Nat) (next : Int → FileOp α) :
    d.runSection ((overwriteSection f found edit fd).bind next) =
      (overwriteIn found edit ((d.file f).read fd)).map fun out =>
        (next out.1, d.setFile f ((d.file f).update fd out.2)) := by
  rw [overwriteSection, overwriteIn, bind_eq, Prog.bind_assoc, runSection_semWait, bind_eq,
    Prog.bind_assoc, runSection_read, bind_eq, Prog.bind_assoc, runSection_access]
  rcases locate? found ((d.file f).read fd) with _ | _ | ⟨pos, r⟩
  · rfl
  · rw [Option.bind_some, Option.bind_some]
    dsimp only
    rw [runSection_release, Option.map_some, NamedFile.update_read, setFile_file]
  · rw [Option.bind_some, Option.bind_some]
    simp only [bind_eq, Prog.bind_assoc, runSection_access, runSection_write, runSection_release]
    cases edit r <;> rfl

/-- The copy in `courses_temp.dat` after the loop of `remove_course`. -/
theorem runSection_copyOthers (id : CString) (records copied : List Course)
    (hreads : ∀ course ∈ records, ¬ course.id.Overrun id) (hd : d.temp = some copied)
    (next : Unit → FileOp α) :
    d.runSection ((copyOthers id records).bind next) =
      { d with temp := some (copied ++ others id records) }.runSection (next ()) := by
  induction records generalizing d copied with
  | nil =>
    have htemp : { d with temp := some (copied ++ others id []) } = d := by
      rw [others, List.filter_nil, List.append_nil, ← hd]
    rw [htemp]
    rfl
  | cons course rest ih =>
    have hcompare : course.strcmpId id = some (course.hasId id) :=
      CArray.strcmp_of_not_overrun (hreads course List.mem_cons_self)
    have hrest := fun other hother => hreads other (List.mem_cons_of_mem _ hother)
    rw [copyOthers, bind_eq, Prog.bind_assoc, runSection_access, hcompare, Option.bind_some]
    by_cases h : course.hasId id = true
    · have hothers : others id (course :: rest) = others id rest := by
        simp [others, h]
      rw [if_pos h, ih copied hrest hd, hothers]
    · have hothers : others id (course :: rest) = course :: others id rest := by
        simp [others, h]
      have hwrite : d.runSection
          (((perform (.writeTemp course)).bind fun _ => copyOthers id rest).bind next) =
          { d with temp := d.temp.map (· ++ [course]) }.runSection
            ((copyOthers id rest).bind next) := rfl
      rw [if_neg h, bind_eq, hwrite, ih (copied ++ [course]) hrest (by rw [hd]; rfl), hothers,
        List.append_assoc]
      rfl

theorem runSection_remove (id : CString) (fd : Nat) (next : Option Bool → FileOp α) :
    d.runSection ((removeSection id fd).bind next) =
      (removeFrom id (d.courses.read fd)).map fun out =>
        if out.1 then
          (next (some true), { d with courses := d.courses.rename out.2, temp := none })
        else (next (some false), d) := by
  rw [removeSection, removeFrom, bind_eq, Prog.bind_assoc, runSection_semWait, bind_eq,
    Prog.bind_assoc, runSection_readCourses, bind_eq, Prog.bind_assoc, runSection_access]
  cases hlocate : locate? (Course.strcmpId id) (d.courses.read fd) with
  | none => rfl
  | some found =>
    rw [Option.bind_some]
    cases found with
    | none => rfl
    | some found =>
      -- the first loop has got to a course with the id, so the comparisons stay within the arrays
      have hreads : ∀ course ∈ d.courses.read fd, ¬ course.id.Overrun id := by
        rw [locate?_course] at hlocate
        split at hlocate
        · cases hlocate
        · next hnone => exact fun course hmem hover => hnone ⟨course, hmem, hover⟩
      have hopen : ∀ body : Bool → FileOp (Option Bool),
          d.runSection (((perform .openTemp).bind body).bind next) =
            { d with temp := some [] }.runSection ((body true).bind next) := fun _ => rfl
      have hcopied := runSection_copyOthers (α := α)
        (d := { d with temp := some [] }) id (d.courses.read fd) [] hreads rfl
      dsimp only
      rw [bind_eq, hopen, if_pos rfl, bind_eq, Prog.bind_assoc, hcopied, List.nil_append]
      rfl

/-- The records of `students.dat` in the middle of the sweep of `remove_course`: the first ones
have been swept. -/
theorem runSection_sweepFrom (id : CString) (fd : Nat) (swept rest : List Student)
    (hd : d.students.read fd = swept ++ rest) (next : Unit → FileOp α) :
    d.runSection ((sweep fd id swept.length rest).bind next) =
      (sweepIn id rest).bind fun rest' =>
        (d.setStudents fd (swept ++ rest')).runSection (next ()) := by
  induction rest generalizing d swept with
  | nil =>
    have hself : d.setStudents fd (swept ++ []) = d := by rw [← hd, setStudents_read]
    show _ = (d.setStudents fd (swept ++ [])).runSection (next ())
    rw [hself]
    rfl
  | cons student rest ih =>
    have hlength : (swept ++ [student.clear id]).length = swept.length + 1 := by simp
    rw [sweep, bind_eq, Prog.bind_assoc, runSection_access, sweepIn, List.mapM_cons,
      mapM_strcmpEntry]
    by_cases hover : ∃ slot ∈ student.enrolledCourses.toList, slot.Overrun id
    · rw [if_pos hover]
      rfl
    · rw [if_neg hover, Option.bind_some, Option.map_some]
      have hgoes : ∀ d' : Disk, d'.students.read fd = swept ++ [student.clear id] ++ rest →
          (∀ records, d'.setStudents fd records = d.setStudents fd records) →
          d'.runSection ((sweep fd id (swept.length + 1) rest).bind next) =
            (sweepIn id rest).bind fun rest' =>
              (d.setStudents fd (swept ++ student.clear id :: rest')).runSection (next ()) := by
        intro d' hread hset
        rw [← hlength, ih _ hread]
        refine Option.bind_congr fun rest' _ => ?_
        rw [hset, List.append_assoc]
        rfl
      have hrest : (do
          let y ← some (student.clear id)
          let ys ← sweepIn id rest
          pure (y :: ys)) = (sweepIn id rest).map (student.clear id :: ·) := by
        cases sweepIn id rest <;> rfl
      refine Eq.trans ?_ (congrArg (Option.bind · _) hrest.symm)
      rw [Option.bind_map]
      split
      · have hset : (d.students.read fd).set swept.length (student.clear id) =
            swept ++ [student.clear id] ++ rest := by
          rw [hd]
          simp
        have hwrite : ∀ body : FileOp Unit, d.runSection
            (((perform (.write .students fd swept.length (student.clear id))) >>=
              fun _ => body).bind next) =
            (d.setStudents fd
              ((d.students.read fd).set swept.length (student.clear id))).runSection
              (body.bind next) := fun _ => rfl
        rw [hwrite, hset]
        refine hgoes _ (NamedFile.read_update_of_ne_nil (by simp [hd])) fun records => ?_
        rw [setStudents, setStudents, NamedFile.update_update]
        rfl
      · next hno =>
        rw [contains_entryIs] at hno
        have hclear : student.clear id = student := student.clear_eq_self (by simpa using hno)
        exact hgoes d (by rw [hd, hclear]; simp) fun _ => rfl

theorem runSection_sweep (id : CString) (fd : Nat) (next : Unit → FileOp α) :
    d.runSection ((sweepSection id fd).bind next) =
      (sweepIn id (d.students.read fd)).map fun records => (next (), d.setStudents fd records) := by
  have hloop := runSection_sweepFrom id fd [] (d.students.read fd) rfl
    fun _ => (release ()).bind next
  rw [sweepSection, bind_eq, Prog.bind_assoc, runSection_semWait, bind_eq, Prog.bind_assoc,
    runSection_readStudents, bind_eq, Prog.bind_assoc]
  refine hloop.trans ?_
  cases sweepIn id (d.students.read fd) <;> rfl

/-- What `enroll_course` leaves in the files. -/
def enrolled (d : Disk) (fd : Nat) (students : List Student) (courses : Option (List Course)) :
    Disk :=
  { d with students := d.students.update fd students, courses := d.courses.store courses }

@[simp] theorem enrolled_eq_self (fd : Nat) :
    d.enrolled fd (d.students.read fd) d.courses.content = d := by
  rw [enrolled, NamedFile.update_read, NamedFile.store_content]

theorem runSection_enrollInCourse (studentId courseId : CString) (fd spos : Nat)
    (student : Student) (emptySlot : Nat) (next : Int → FileOp α) :
    d.runSection ((enrollInCourse studentId courseId fd spos student emptySlot).bind next) =
      (enrollSlotIn studentId courseId spos student emptySlot (d.students.read fd)
        d.courses.content).map fun out => (next out.1, d.enrolled fd out.2.1 out.2.2) := by
  have hself := d.enrolled_eq_self fd
  have hfile : d.file .courses = d.courses := rfl
  have hsame : d.setFile .courses d.courses = d := d.setFile_file .courses
  rw [enrollInCourse, bind_eq, Prog.bind_assoc, runSection_openFile, hfile]
  cases hn : d.courses.named with
  | none =>
    rw [NamedFile.content_eq_none.mpr hn] at hself ⊢
    rw [NamedFile.openFile_of_missing hn, hsame]
    dsimp only
    rw [runSection_release, enrollSlotIn, Option.map_some, hself]
  | some cfd =>
    rw [NamedFile.content_of_named hn] at hself ⊢
    rw [NamedFile.openFile_of_named false hn, hsame]
    dsimp only
    rw [bind_eq, Prog.bind_assoc, runSection_readCourses, bind_eq, Prog.bind_assoc,
      runSection_access, enrollSlotIn]
    rcases locate? (Course.strcmpId courseId) (d.courses.read cfd) with _ | _ | ⟨cpos, course⟩
    · rfl
    · rw [Option.bind_some, Option.bind_some]
      dsimp only
      rw [runSection_release, Option.map_some, hself]
    rw [Option.bind_some, Option.bind_some]
    dsimp only
    by_cases hfull : course.enrolledCount ≥ course.totalSeats
    · rw [if_pos hfull, if_pos hfull, runSection_release, Option.map_some, hself]
    rw [if_neg hfull, if_neg hfull, bind_eq, Prog.bind_assoc, runSection_access]
    rcases course.enrolledStudents.search (strcmpEntry studentId) 0 course.enrolledCount.toNat with
      _ | _ | i
    · rfl
    · rw [Option.bind_some]
      dsimp only
      rw [bind_eq, Prog.bind_assoc, runSection_access]
      cases student.enrolledCourses.set? emptySlot (strncpy maxId courseId) with
      | none => rfl
      | some slots =>
        rw [Option.bind_some, Option.bind_some, bind_eq, Prog.bind_assoc, runSection_write,
          bind_eq, Prog.bind_assoc, runSection_access]
        cases course.enrolledStudents.set? course.enrolledCount (strncpy maxId studentId) with
        | none => rfl
        | some roster =>
          rw [Option.bind_some, Option.map_some, Option.map_some, enrolled,
            NamedFile.store_of_named hn]
          rfl
    · rw [Option.bind_some]
      dsimp only
      rw [runSection_release, Option.map_some, hself]

theorem runSection_enroll (studentId courseId : CString) (fd : Nat) (next : Int → FileOp α) :
    d.runSection ((enrollSection studentId courseId fd).bind next) =
      (enrollIn studentId courseId (d.students.read fd) d.courses.content).map fun out =>
        (next out.1, d.enrolled fd out.2.1 out.2.2) := by
  have hout : ∀ code : Int, d.runSection ((release code).bind next) =
      (some (code, d.students.read fd, d.courses.content)).map fun out =>
        (next out.1, d.enrolled fd out.2.1 out.2.2) := fun code => by
    rw [runSection_release, Option.map_some, enrolled_eq_self]
  rw [enrollSection, enrollIn, bind_eq, Prog.bind_assoc, runSection_semWait, bind_eq,
    Prog.bind_assoc, runSection_readStudents, bind_eq, Prog.bind_assoc, runSection_access]
  rcases locate? (Student.strcmpId studentId) (d.students.read fd) with _ | _ | ⟨spos, student⟩
  · rfl
  · exact hout _
  · rw [Option.bind_some, Option.bind_some]
    dsimp only
    by_cases hactive : student.active = 0
    · rw [if_pos hactive, if_pos hactive]
      exact hout _
    rw [if_neg hactive, if_neg hactive, bind_eq, Prog.bind_assoc, runSection_access]
    rcases scanSlots courseId student.enrolledCourses.toList 0 none with
      _ | ⟨_ | _, _ | emptySlot⟩
    · rfl
    · exact hout _
    · exact runSection_enrollInCourse _ _ fd spos student emptySlot next
    · exact hout _
    · exact hout _

theorem runSection_unenrollRoster (studentId courseId : CString) (fd : Nat)
    (next : Unit → FileOp α) :
    d.runSection ((unenrollRoster fd studentId courseId).bind next) =
      (unenrollFrom studentId courseId (d.courses.read fd)).map fun records =>
        (next (), d.setCourses fd records) := by
  rw [unenrollRoster, unenrollFrom, bind_eq, Prog.bind_assoc, runSection_semWait, bind_eq,
    Prog.bind_assoc, runSection_readCourses, bind_eq, Prog.bind_assoc, runSection_access]
  rcases locate? (Course.strcmpId courseId) (d.courses.read fd) with _ | _ | ⟨pos, course⟩
  · rfl
  · rw [Option.bind_some, Option.bind_some]
    dsimp only
    rw [runSection_release, Option.map_some, setCourses_read]
  · rw [Option.bind_some, Option.bind_some]
    dsimp only
    rw [bind_eq, Prog.bind_assoc, runSection_access]
    rcases course.enrolledStudents.search (strcmpEntry studentId) 0 course.enrolledCount.toNat with
      _ | _ | i
    · rfl
    · rw [Option.bind_some]
      dsimp only
      rw [runSection_release, Option.map_some, setCourses_read]
    · rw [Option.bind_some]
      dsimp only
      rw [bind_eq, Prog.bind_assoc, runSection_access]
      cases course.shift i <;> rfl

theorem runSection_unenroll (studentId courseId : CString) (fd : Nat) (next : Int → FileOp α) :
    d.runSection ((unenrollSection studentId courseId fd).bind next) =
      (unenrollIn studentId courseId (d.students.read fd)).map fun out =>
        (next out.1, d.setStudents fd out.2) := by
  rw [unenrollSection, unenrollIn, bind_eq, Prog.bind_assoc, runSection_semWait, bind_eq,
    Prog.bind_assoc, runSection_readStudents, bind_eq, Prog.bind_assoc, runSection_access]
  rcases locate? (Student.strcmpId studentId) (d.students.read fd) with _ | _ | ⟨pos, student⟩
  · rfl
  · rw [Option.bind_some, Option.bind_some]
    dsimp only
    rw [runSection_release, Option.map_some, setStudents_read]
  · rw [Option.bind_some, Option.bind_some]
    dsimp only
    rw [bind_eq, Prog.bind_assoc, runSection_access]
    rcases locate? (strcmpEntry courseId) student.enrolledCourses.toList with _ | _ | ⟨i, slot⟩
    · rfl
    · rw [Option.bind_some, Option.bind_some]
      dsimp only
      rw [runSection_release, Option.map_some, setStudents_read]
    · rw [Option.bind_some, Option.bind_some]
      dsimp only
      rw [bind_eq, Prog.bind_assoc, runSection_access]
      cases student.enrolledCourses.set? i zeros <;> rfl

end Disk

end AcademiaCr.Academia
