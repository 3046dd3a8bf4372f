import AcademiaCr.Library.Semaphore
import AcademiaCr.Academia.Views

/-!
# The semaphore discipline of the C server

Every operation of `file_ops.c` and the authentication of `client_handler` wait for `file_sem`
and post it in turns, on every way through them: whatever the files contain, whichever opens and
allocations fail, and whatever an access outside an array yields.

## Main definitions

- `Syscall.semOp`: what a call does with `file_sem`
- `Operation`: the operations with their arguments
- `sessions`: threads that perform operations, in any interleaving
-/

namespace AcademiaCr.Academia

open CLang RecordFile Resumption Prog

/-- What a call does with `file_sem`. -/
def Syscall.semOp {β : Type} : Syscall β → Option SemOp
  | .semWait => some .wait
  | .semPost => some .post
  | _ => none

/-- The program holds `file_sem` at the start or not, and at the end or not, as stated. -/
abbrev Disciplined {α : Type} (start finish : Bool) (p : FileOp α) : Prop :=
  p.Moves Syscall.semOp start finish

variable {α β : Type} {held start finish : Bool}

theorem disciplined_pure (a : α) : Disciplined held held (pure a : FileOp α) := rfl

theorem Disciplined.bind {mid : Bool} {p : FileOp α} {f : α → FileOp β}
    (hp : Disciplined start mid p) (hf : ∀ a, Disciplined mid finish (f a)) :
    Disciplined start finish (p >>= f) :=
  Moves.bind hp hf

/-- A call other than a wait or a post. -/
theorem disciplined_perform {e : Syscall β} (h : e.semOp = none) :
    Disciplined held held (perform e) :=
  (moves_call h).mpr fun _ => rfl

theorem disciplined_semWait : Disciplined false true (perform .semWait) :=
  (moves_wait rfl).mpr ⟨rfl, fun _ => rfl⟩

theorem disciplined_semPost : Disciplined true false (perform .semPost) :=
  (moves_post rfl).mpr ⟨rfl, fun _ => rfl⟩

theorem disciplined_release (code : α) : Disciplined true false (release code) :=
  disciplined_semPost.bind fun _ => disciplined_pure code

theorem disciplined_access (x : Option α) : Disciplined held held (access x) := by
  cases x with
  | none => exact disciplined_perform rfl
  | some a => exact disciplined_pure a

theorem disciplined_withFile {f : FileName} {create : Bool} {code : α} {body : Nat → FileOp α}
    (hbody : ∀ fd, Disciplined held held (body fd)) :
    Disciplined held held (withFile f create code body) := by
  refine (disciplined_perform rfl).bind fun fd => ?_
  cases fd with
  | none => exact disciplined_pure code
  | some fd => exact hbody fd

/-- A section of a file: the file is opened, and the rest is between a wait and a post. -/
theorem disciplined_section {f : FileName} {create : Bool} {code : α} {body : Nat → FileOp α}
    (hbody : ∀ fd, Disciplined true false (body fd)) :
    Disciplined false false (withFile f create code fun fd => do
      perform .semWait
      body fd) :=
  disciplined_withFile fun fd => disciplined_semWait.bind fun _ => hbody fd

/-! ## The operations that change files -/

theorem disciplined_appendRecord (f : FileName) (r : f.Record) :
    Disciplined false false (appendRecord f r) :=
  disciplined_section fun _ =>
    (disciplined_perform rfl).bind fun _ => disciplined_release 0

theorem disciplined_addCourse (id name facultyId : CString) (seats : Int) :
    Disciplined false false (addCourse id name facultyId seats) := by
  refine disciplined_section fun fd => (disciplined_perform rfl).bind fun records =>
    (disciplined_access _).bind fun found => ?_
  split
  · exact disciplined_release (-1)
  · exact (disciplined_perform rfl).bind fun _ => disciplined_release 0

theorem disciplined_overwriteFirst (f : FileName) (found : f.Record → Option Bool)
    (edit : f.Record → Option f.Record) :
    Disciplined false false (overwriteFirst f found edit) := by
  refine disciplined_section fun fd => (disciplined_perform rfl).bind fun records =>
    (disciplined_access _).bind fun first => ?_
  split
  · exact disciplined_release (-1)
  · next pos r =>
    exact (disciplined_access (edit r)).bind fun _ =>
      (disciplined_perform rfl).bind fun _ => disciplined_release 0

theorem disciplined_copyOthers (id : CString) (records : List Course) :
    Disciplined held held (copyOthers id records) := by
  induction records with
  | nil => exact disciplined_pure ()
  | cons course rest ih =>
    rw [copyOthers]
    refine (disciplined_access _).bind fun same => ?_
    split
    · exact ih
    · exact (disciplined_perform rfl).bind fun _ => ih

theorem disciplined_sweep (sfd : Nat) (id : CString) (spos : Nat) (records : List Student) :
    Disciplined held held (sweep sfd id spos records) := by
  induction records generalizing spos with
  | nil => exact disciplined_pure ()
  | cons student rest ih =>
    rw [sweep]
    refine (disciplined_access _).bind fun found => ?_
    split
    · exact (disciplined_perform rfl).bind fun _ => ih (spos + 1)
    · exact ih (spos + 1)

theorem disciplined_removeSection (id : CString) (fd : Nat) :
    Disciplined false false (removeSection id fd) := by
  refine disciplined_semWait.bind fun _ => (disciplined_perform rfl).bind fun records =>
    (disciplined_access _).bind fun found => ?_
  split
  · refine (disciplined_perform rfl).bind fun opened => ?_
    split
    · exact (disciplined_copyOthers id records).bind fun _ =>
        (disciplined_perform rfl).bind fun _ => disciplined_release _
    · exact disciplined_release _
  · exact disciplined_release _

theorem disciplined_removeFromStudents (id : CString) (found : Option Bool) :
    Disciplined false false (removeFromStudents id found) := by
  cases found with
  | none => exact disciplined_pure _
  | some found =>
    have hsweep : Disciplined false false (withFile .students false () (sweepSection id)) :=
      disciplined_section fun sfd => (disciplined_perform rfl).bind fun records =>
        (disciplined_sweep sfd id 0 records).bind fun _ => disciplined_release ()
    exact hsweep.bind fun _ => disciplined_pure _

theorem disciplined_removeCourse (id : CString) : Disciplined false false (removeCourse id) :=
  disciplined_withFile fun fd =>
    (disciplined_removeSection id fd).bind fun found => disciplined_removeFromStudents id found

theorem disciplined_enrollInCourse (studentId courseId : CString) (sfd spos : Nat)
    (student : Student) (emptySlot : Nat) :
    Disciplined true false
      (enrollInCourse studentId courseId sfd spos student emptySlot) := by
  refine (disciplined_perform rfl).bind fun cfd => ?_
  cases cfd with
  | none => exact disciplined_release (-1)
  | some cfd =>
    refine (disciplined_perform rfl).bind fun records =>
      (disciplined_access _).bind fun found => ?_
    split
    · exact disciplined_release _
    · split
      · exact disciplined_release _
      · refine (disciplined_access _).bind fun entry => ?_
        cases entry with
        | some _ => exact disciplined_release _
        | none =>
          exact (disciplined_access _).bind fun _ => (disciplined_perform rfl).bind fun _ =>
            (disciplined_access _).bind fun _ => (disciplined_perform rfl).bind fun _ =>
            disciplined_release 0

theorem disciplined_enrollCourse (studentId courseId : CString) :
    Disciplined false false (enrollCourse studentId courseId) := by
  refine disciplined_section fun sfd => (disciplined_perform rfl).bind fun records =>
    (disciplined_access _).bind fun found => ?_
  split
  · exact disciplined_release _
  · split
    · exact disciplined_release _
    · refine (disciplined_access _).bind fun scanned => ?_
      split
      · exact disciplined_release _
      · exact disciplined_release _
      · exact disciplined_enrollInCourse _ _ _ _ _ _

theorem disciplined_unenrollRoster (fd : Nat) (studentId courseId : CString) :
    Disciplined false false (unenrollRoster fd studentId courseId) := by
  refine disciplined_semWait.bind fun _ => (disciplined_perform rfl).bind fun records =>
    (disciplined_access _).bind fun found => ?_
  split
  · exact disciplined_release ()
  · refine (disciplined_access _).bind fun entry => ?_
    cases entry with
    | none => exact disciplined_release ()
    | some i =>
      exact (disciplined_access _).bind fun _ => (disciplined_perform rfl).bind fun _ =>
        disciplined_release ()

theorem disciplined_unenrollRecord (studentId courseId : CString) :
    Disciplined false false (unenrollRecord studentId courseId) := by
  refine disciplined_section fun fd => (disciplined_perform rfl).bind fun records =>
    (disciplined_access _).bind fun found => ?_
  split
  · exact disciplined_release (-1)
  · refine (disciplined_access _).bind fun slot => ?_
    split
    · exact disciplined_release _
    · exact (disciplined_access _).bind fun _ => (disciplined_perform rfl).bind fun _ =>
        disciplined_release 0

theorem disciplined_unenrollCourse (studentId courseId : CString) :
    Disciplined false false (unenrollCourse studentId courseId) :=
  disciplined_withFile fun fd => (disciplined_unenrollRoster fd studentId courseId).bind fun _ =>
    disciplined_unenrollRecord studentId courseId

/-! ## The listings -/

theorem disciplined_appendText (bufferSize : Nat) (result info : CString) :
    Disciplined held held (appendText bufferSize result info) := by
  rw [appendText]
  split
  · refine (disciplined_perform rfl).bind fun grown => ?_
    split <;> exact disciplined_pure _
  · exact disciplined_pure _

theorem disciplined_appendLines {ρ : Type} (fmt : Format ρ) (records : List ρ) (bufferSize : Nat)
    (result : CString) (count : Nat) :
    Disciplined held held (appendLines fmt records bufferSize result count) := by
  induction records generalizing bufferSize result count with
  | nil => exact disciplined_pure _
  | cons r rest ih =>
    rw [appendLines]
    refine (disciplined_access _).bind fun found => ?_
    split
    · refine (disciplined_access _).bind fun line => ?_
      refine (disciplined_appendText _ _ _).bind fun out => ?_
      split
      · exact disciplined_pure _
      · exact ih _ _ _
    · exact ih _ _ _

theorem disciplined_appendNone (noneText : CString) (bufferSize : Nat) (result : CString)
    (count : Nat) : Disciplined held held (appendNone noneText bufferSize result count) := by
  rw [appendNone]
  split
  · exact disciplined_appendText _ _ _
  · exact disciplined_pure _

theorem disciplined_finishText (out : Option (Nat × CString)) :
    Disciplined true false (finishText out) := by
  cases out with
  | none => exact disciplined_release _
  | some out => exact disciplined_release _

/-- A listing after its wait: `NULL` without memory, else the text. -/
theorem disciplined_malloc {body : FileOp (Option CString)} (hbody : Disciplined true false body) :
    Disciplined true false (do if ← perform .malloc then body else release none) := by
  refine (disciplined_perform rfl).bind fun allocated => ?_
  split
  · exact hbody
  · exact disciplined_release _

theorem disciplined_listing (f : FileName) (fmt : Format f.Record) :
    Disciplined false false (listing f fmt) := by
  refine disciplined_section fun fd => disciplined_malloc ?_
  refine (disciplined_perform rfl).bind fun records =>
    (disciplined_appendLines fmt _ _ _ _).bind fun out => ?_
  split
  · exact disciplined_release _
  · exact (disciplined_appendNone _ _ _ _).bind fun out => disciplined_finishText out

theorem disciplined_slotLines (student : Student) :
    Disciplined held held (slotLines student) := by
  refine (disciplined_appendLines _ _ _ _ _).bind fun out => ?_
  split
  · exact disciplined_pure _
  · exact disciplined_appendNone _ _ _ _

theorem disciplined_rosterLines (fmt : Format Id) (roster : CArray Id maxUsers) (i : Int)
    (k bufferSize : Nat) (result : CString) (count : Nat) :
    Disciplined held held (rosterLines fmt roster i k bufferSize result count) := by
  induction k generalizing i bufferSize result count with
  | zero => exact disciplined_pure _
  | succ k ih =>
    refine (disciplined_access _).bind fun entry => (disciplined_access _).bind fun line =>
      (disciplined_appendText _ _ _).bind fun out => ?_
    split
    · exact disciplined_pure _
    · exact ih _ _ _ _

theorem disciplined_enrollmentLines (fmt : Format Id) (course : Course) :
    Disciplined held held (enrollmentLines fmt course) := by
  refine (disciplined_rosterLines _ _ _ _ _ _ _).bind fun out => ?_
  split
  · exact disciplined_pure _
  · exact disciplined_appendNone _ _ _ _

theorem disciplined_viewEnrolledCourses (studentId : CString) :
    Disciplined false false (viewEnrolledCourses studentId) := by
  refine disciplined_section fun fd => disciplined_malloc ?_
  refine (disciplined_perform rfl).bind fun records => (disciplined_access _).bind fun found => ?_
  split
  · exact (disciplined_slotLines _).bind fun out => disciplined_finishText out
  · exact (disciplined_appendText _ _ _).bind fun out => disciplined_finishText out

theorem disciplined_viewCourseEnrollments (courseId : CString) :
    Disciplined false false (viewCourseEnrollments courseId) := by
  refine disciplined_section fun fd => disciplined_malloc ?_
  refine (disciplined_perform rfl).bind fun records => (disciplined_access _).bind fun found => ?_
  split
  · exact (disciplined_enrollmentLines _ _).bind fun out => disciplined_finishText out
  · exact (disciplined_appendText _ _ _).bind fun out => disciplined_finishText out

/-! ## Set-up and authentication -/

/-- An account with its record, if the account can be added. -/
theorem disciplined_addSample (id password : CString) (role : Role) {f : FileName}
    (r : f.Record) :
    Disciplined false false (do
      if (← addUser id password role) = 0 then
        let _ ← appendRecord f r
        return
      else
        return) := by
  refine (disciplined_appendRecord _ _).bind fun code => ?_
  split
  · exact (disciplined_appendRecord f r).bind fun _ => disciplined_pure _
  · exact disciplined_pure _

theorem disciplined_addSamples : Disciplined false false initialSetup.addSamples := by
  refine (disciplined_appendRecord _ _).bind fun code => ?_
  split
  · exact (disciplined_addSample _ _ _ _).bind fun _ => disciplined_addSample _ _ _ _
  · exact disciplined_pure _

theorem disciplined_initialSetup : Disciplined false false initialSetup := by
  refine (disciplined_perform rfl).bind fun fd => ?_
  cases fd with
  | none => exact disciplined_addSamples
  | some fd =>
    refine (disciplined_perform rfl).bind fun records => ?_
    split
    · exact disciplined_addSamples
    · exact disciplined_pure _

theorem disciplined_authenticate (userId password : CString) (expectedRole : Role) :
    Disciplined false false (authenticate userId password expectedRole) :=
  disciplined_section fun _ => (disciplined_perform rfl).bind fun _ =>
    (disciplined_access _).bind fun _ => disciplined_release _

/-! ## All operations -/

/-- The operations of `file_ops.c` and the authentication, with their arguments. -/
inductive Operation where
  | addUser (id password : CString) (role : Role)
  | addStudent (id name : CString)
  | addFaculty (id name : CString)
  | activateDeactivateStudent (id : CString) (activate : Int)
  | updateStudent (id newName : CString)
  | updateFaculty (id newName : CString)
  | changePassword (userId newPassword : CString)
  | addCourse (id name facultyId : CString) (seats : Int)
  | updateCourse (id newName : CString) (newSeats : Int)
  | removeCourse (id : CString)
  | enrollCourse (studentId courseId : CString)
  | unenrollCourse (studentId courseId : CString)
  | viewEnrolledCourses (studentId : CString)
  | viewCourseEnrollments (courseId : CString)
  | viewAllCourses
  | viewFacultyCourses (facultyId : CString)
  | viewAllStudents
  | viewAllFaculty
  | initialSetup
  | authenticate (userId password : CString) (expectedRole : Role)

/-- What an operation returns. -/
inductive Answer where
  | code (n : Int)
  | text (s : Option CString)
  | login (b : Option Bool)
  | done

/-- The program of an operation. -/
def Operation.program : Operation → FileOp Answer
  | .addUser id password role => .code <$> Academia.addUser id password role
  | .addStudent id name => .code <$> Academia.addStudent id name
  | .addFaculty id name => .code <$> Academia.addFaculty id name
  | .activateDeactivateStudent id activate =>
    .code <$> Academia.activateDeactivateStudent id activate
  | .updateStudent id newName => .code <$> Academia.updateStudent id newName
  | .updateFaculty id newName => .code <$> Academia.updateFaculty id newName
  | .changePassword userId newPassword => .code <$> Academia.changePassword userId newPassword
  | .addCourse id name facultyId seats => .code <$> Academia.addCourse id name facultyId seats
  | .updateCourse id newName newSeats => .code <$> Academia.updateCourse id newName newSeats
  | .removeCourse id => .code <$> Academia.removeCourse id
  | .enrollCourse studentId courseId => .code <$> Academia.enrollCourse studentId courseId
  | .unenrollCourse studentId courseId => .code <$> Academia.unenrollCourse studentId courseId
  | .viewEnrolledCourses studentId => .text <$> Academia.viewEnrolledCourses studentId
  | .viewCourseEnrollments courseId => .text <$> Academia.viewCourseEnrollments courseId
  | .viewAllCourses => .text <$> Academia.viewAllCourses
  | .viewFacultyCourses facultyId => .text <$> Academia.viewFacultyCourses facultyId
  | .viewAllStudents => .text <$> Academia.viewAllStudents
  | .viewAllFaculty => .text <$> Academia.viewAllFaculty
  | .initialSetup => (fun _ => .done) <$> Academia.initialSetup
  | .authenticate userId password expectedRole =>
    .login <$> Academia.authenticate userId password expectedRole

theorem Disciplined.map {p : FileOp α} (hp : Disciplined false false p) (f : α → β) :
    Disciplined false false (f <$> p) :=
  Moves.bind hp fun a => disciplined_pure (f a)

theorem Operation.disciplined (op : Operation) : Disciplined false false op.program := by
  cases op with
  | addUser | addStudent | addFaculty => exact (disciplined_appendRecord _ _).map _
  | activateDeactivateStudent | updateStudent | updateFaculty | changePassword | updateCourse =>
    exact (disciplined_overwriteFirst _ _ _).map _
  | addCourse => exact (disciplined_addCourse _ _ _ _).map _
  | removeCourse => exact (disciplined_removeCourse _).map _
  | enrollCourse => exact (disciplined_enrollCourse _ _).map _
  | unenrollCourse => exact (disciplined_unenrollCourse _ _).map _
  | viewEnrolledCourses => exact (disciplined_viewEnrolledCourses _).map _
  | viewCourseEnrollments => exact (disciplined_viewCourseEnrollments _).map _
  | viewAllCourses | viewFacultyCourses | viewAllStudents | viewAllFaculty =>
    exact (disciplined_listing _ _).map _
  | initialSetup => exact disciplined_initialSetup.map _
  | authenticate => exact (disciplined_authenticate _ _ _).map _

/-! ## Sessions -/

/-- A session performs its operations one after another. -/
def session : List Operation → FileOp Unit
  | [] => return
  | op :: rest => do
    let _ ← op.program
    session rest

theorem disciplined_session (ops : List Operation) : Disciplined false false (session ops) := by
  induction ops with
  | nil => exact disciplined_pure ()
  | cons op rest ih => exact op.disciplined.bind fun _ => ih

/-- Sessions in separate threads, after `sem_init(&file_sem, 0, 1)`. -/
def sessions {ι : Type} (ops : ι → List Operation) : Threads Syscall Unit ι :=
  ⟨1, fun t => session (ops t), fun _ => false⟩

/-- Every operation waits for `file_sem` and posts it in turns, from a wait to a post, in each
of its executions, and each part of an execution can be completed so. In each state that
sessions reach, `file_sem` has the value 1 unless one of them is inside a section. -/
theorem semaphore_discipline :
    (∀ (op : Operation) (ops : List SemOp) (answer : Answer),
      Trace Syscall.semOp op.program ops (.ret answer) → Alternates ops) ∧
    (∀ (op : Operation) (ops : List SemOp) (rest : FileOp Answer),
      Trace Syscall.semOp op.program ops rest → ∃ more, Alternates (ops ++ more)) ∧
    ∀ (ι : Type) [DecidableEq ι] (script : ι → List Operation) (s : Threads Syscall Unit ι),
      Relation.ReflTransGen (Threads.Step Syscall.semOp) (sessions script) s →
        (∀ t, s.inside t = false) → s.value = 1 := by
  refine ⟨fun op ops answer ht => op.disciplined.alternates ht, fun op ops rest ht => ?_,
    fun ι _ script s hs hout => ?_⟩
  · obtain ⟨more, halt, -⟩ := op.disciplined.trace ht
    exact ⟨more, halt⟩
  · have hstart : Threads.Excluded Syscall.semOp (sessions script) :=
      Threads.Excluded.of_programs fun t => disciplined_session (script t)
    exact (hstart.reachable hs).free hout

/-- Two sessions that add a student each. -/
def twoStudents (_ : Bool) : List Operation := [.addStudent (.ofString "s1") (.ofString "John")]

/-- A login that reads one user, and two sessions of which one has added its student. -/
theorem semaphore_discipline_login :
    Alternates [.wait, .post] ∧ ∃ s,
      Relation.ReflTransGen (Threads.Step Syscall.semOp) (sessions twoStudents) s ∧
        (∃ answer, s.rest false = .ret answer) ∧ s.value = 1 := by
  have ht : Trace Syscall.semOp (Operation.authenticate .empty .empty .student).program
      ([] ++ ([.wait] ++ ([] ++ ([.post] ++ [])))) (.ret (.login (some true))) :=
    .call (some 0) (.call () (.call
      [{ id := zeros, role := .student, password := zeros }] (.call () (.stop _))))
  have hopen := Relation.ReflTransGen.single (r := Threads.Step Syscall.semOp)
    (a := sessions twoStudents) (.other (t := false) (some 0) rfl rfl)
  have hwait := hopen.tail (.wait (t := false) () rfl rfl rfl)
  have hadded := hwait.tail (.other (t := false) () rfl rfl)
  have hs := hadded.tail (.post (t := false) () rfl rfl)
  refine ⟨semaphore_discipline.1 _ _ _ ht, _, hs, ⟨(), rfl⟩,
    semaphore_discipline.2.2 Bool _ _ hs fun t => ?_⟩
  cases t <;> rfl

end AcademiaCr.Academia
