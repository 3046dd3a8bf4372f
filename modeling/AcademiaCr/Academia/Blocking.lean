import AcademiaCr.Academia.Outcomes
import AcademiaCr.Academia.Listings

/-!
# Blocked students

A student is blocked if the first record with the id is not active. Only an activation of the
same id changes that: all other operations keep the ids, the positions and the flags of the
records that `students.dat` holds. While the student is blocked, `enroll_course` refuses.

## Main definitions

- `BlockedIn`, `Disk.Blocked`: the first record with the id is not active
- `OpServer`, `OpServer.step`: sessions that perform operations, a section at a time
- `Operation.Step`: what one step of an operation does about a blocked student
- `Operation.does_program`: every step of every operation does it
- `blocked_refused`: no run lets a blocked student enroll
-/

namespace AcademiaCr.Academia

open CLang RecordFile Resumption Prog Transition

variable {α β : Type} {s : CString}

/-! ## The first record -/

/-- The first record with the id is not active. -/
def BlockedIn (s : CString) (students : List Student) : Prop :=
  ∃ student, students.find? (Student.hasId s) = some student ∧ student.active = 0

/-- Records are appended after the first one. -/
theorem BlockedIn.append {students : List Student} (h : BlockedIn s students)
    (more : List Student) : BlockedIn s (students ++ more) := by
  obtain ⟨student, hfind, hactive⟩ := h
  exact ⟨student, by rw [List.find?_append, hfind, Option.some_or], hactive⟩

/-- A record is overwritten, and a student who was blocked has the flag of a blocked one. -/
theorem BlockedIn.set {students : List Student} (h : BlockedIn s students) {id : CString}
    {pos : Nat} {student student' : Student}
    (hlocate : locate (Student.hasId id) students = some (pos, student))
    (hid : student'.id = student.id)
    (hactive : id = s → student.active = 0 → student'.active = 0) :
    BlockedIn s (students.set pos student') := by
  obtain ⟨first, hfind, hfirst⟩ := h
  by_cases hs : id = s
  · subst hs
    have hsame : first = student := by
      rw [find?_of_locate hlocate] at hfind
      exact (Option.some.inj hfind).symm
    subst hsame
    exact ⟨student', find?_setStudent_self hlocate hid, hactive rfl hfirst⟩
  · exact ⟨first, (find?_setStudent_other hlocate hid (Ne.symm hs)).trans hfind, hfirst⟩

/-- The sweep of `remove_course` changes neither ids nor flags. -/
theorem BlockedIn.clear {students : List Student} (h : BlockedIn s students) (id : CString) :
    BlockedIn s (students.map (·.clear id)) := by
  obtain ⟨student, hfind, hactive⟩ := h
  have hkeep : (Student.hasId s) ∘ (·.clear id) = Student.hasId s := rfl
  exact ⟨student.clear id, by rw [List.find?_map, hkeep, hfind, Option.map_some], hactive⟩

theorem BlockedIn.overwrite {students : List Student} (h : BlockedIn s students) {id : CString}
    {edit : Student → Option Student} {out : Int × List Student}
    (hid : ∀ student student', edit student = some student' → student'.id = student.id)
    (hactive : ∀ student student', edit student = some student' → id = s → student.active = 0 →
      student'.active = 0)
    (hout : overwriteIn (Student.strcmpId id) edit students = some out) : BlockedIn s out.2 := by
  cases overwrites_of_eq Student.hasId_of_strcmp hout with
  | missing => exact h
  | edited hlocate hedit => exact h.set hlocate (hid _ _ hedit) (hactive _ _ hedit)

/-- A record that has been blocked is the first one with its id. -/
theorem blockedIn_of_overwrite {students records : List Student}
    (hout : overwriteIn (Student.strcmpId s) (fun student => some { student with active := 0 })
      students = some (0, records)) : BlockedIn s records := by
  generalize hpair : ((0 : Int), records) = out at hout
  cases overwrites_of_eq Student.hasId_of_strcmp hout with
  | missing => cases hpair
  | @edited pos student student' hlocate hedit =>
    cases hpair
    cases hedit
    exact ⟨_, find?_setStudent_self hlocate rfl, rfl⟩

theorem BlockedIn.unenrollIn {students : List Student} (h : BlockedIn s students)
    {studentId courseId : CString} {out : Int × List Student}
    (hout : Academia.unenrollIn studentId courseId students = some out) :
    BlockedIn s out.2 := by
  cases unlists_of_eq hout with
  | missing => exact h
  | absent => exact h
  | removed hlocate => exact h.set hlocate rfl fun _ => id

theorem BlockedIn.enrollIn {students : List Student} (h : BlockedIn s students)
    {studentId courseId : CString} {courses : Option (List Course)}
    {out : Int × List Student × Option (List Course)}
    (hout : Academia.enrollIn studentId courseId students courses = some out) :
    BlockedIn s out.2.1 := by
  cases enrolls_of_eq hout with
  | refused => exact h
  | enrolled hlocate => exact h.set hlocate rfl fun _ => id

/-- A blocked student is refused before anything is written. -/
theorem enrollIn_of_blockedIn {students : List Student} (h : BlockedIn s students)
    {courseId : CString} {courses : Option (List Course)}
    {out : Int × List Student × Option (List Course)}
    (hout : Academia.enrollIn s courseId students courses = some out) :
    out = (errInvalidInput, students, courses) := by
  obtain ⟨student, hfind, hactive⟩ := h
  obtain ⟨pos, hlocate⟩ := exists_locate hfind
  obtain ⟨found, hfound, hout⟩ := Option.bind_eq_some_iff.mp hout
  obtain rfl := (locate_of_locate? Student.hasId_of_strcmp hfound).symm.trans hlocate
  dsimp only at hout
  rw [if_pos hactive] at hout
  exact (Option.some.inj hout).symm

/-! ## Steps -/

namespace Disk

variable {d d' : Disk}

/-- The first record of `students.dat` with the id is not active. -/
def Blocked (d : Disk) (s : CString) : Prop := BlockedIn s (d.students.content.getD [])

/-- `students.dat` keeps its name. -/
def KeepsName (d d' : Disk) : Prop :=
  ∀ fd, d.students.named = some fd → d'.students.named = some fd

/-- `students.dat` keeps its name, and a blocked student stays blocked. -/
structure Spares (s : CString) (d d' : Disk) : Prop where
  named : d.KeepsName d'
  blocked : d.Blocked s → d'.Blocked s

theorem KeepsName.trans {d'' : Disk} (h : d.KeepsName d') (h' : d'.KeepsName d'') :
    d.KeepsName d'' :=
  fun fd hfd => h' fd (h fd hfd)

theorem spares_refl (d : Disk) : Spares s d d := ⟨fun _ h => h, id⟩

theorem Spares.trans {d'' : Disk} (h : d.Spares s d') (h' : d'.Spares s d'') : d.Spares s d'' :=
  ⟨h.named.trans h'.named, h'.blocked ∘ h.blocked⟩

theorem spares_of_students_eq (h : d'.students = d.students) : Spares s d d' := by
  refine ⟨fun fd hfd => by rwa [h], fun hblocked => ?_⟩
  rw [Blocked, h]
  exact hblocked

theorem spares_update {fd : Nat} {records : List Student} (hnamed : d.students.named = some fd)
    (h : d'.students = d.students.update fd records)
    (hblocked : BlockedIn s (d.students.read fd) → BlockedIn s records) : Spares s d d' := by
  refine ⟨fun i hi => by rwa [h, NamedFile.named_update], fun hold => ?_⟩
  rw [Blocked, NamedFile.content_of_named hnamed, Option.getD_some] at hold
  rw [Blocked, h, NamedFile.content_update_self hnamed, Option.getD_some]
  exact hblocked hold

theorem spares_openFile (f : FileName) (create : Bool) :
    Spares s d (d.setFile f ((d.file f).openFile create).2) := by
  cases f with
  | students =>
    refine ⟨fun fd hfd => NamedFile.named_openFile create hfd, fun hold => ?_⟩
    have hsame : (d.students.openFile create).2.content.getD [] = d.students.content.getD [] :=
      NamedFile.getD_content_openFile create
    show BlockedIn s ((d.students.openFile create).2.content.getD [])
    rwa [hsame]
  | _ => exact spares_of_students_eq rfl

end Disk

/-- Operations in progress, each of some session. An operation may start at any time, and so
after another one of the same session has returned. -/
abbrev OpServer (ι : Type) := Sectioned Syscall Answer ι Disk

/-- The next step of a session: a section under `file_sem`, or a call outside the sections. -/
def OpServer.step {ι : Type} [DecidableEq ι] (x : OpServer ι) (t : ι) : Option (OpServer ι) :=
  Sectioned.step Disk.exec Syscall.isWait Syscall.isPost x t

/-- What each step of a program does, whatever the other sessions do as long as `students.dat`
keeps its name. -/
abbrev Does (ok : FileOp α → Disk → FileOp α → Disk → Prop) (p : FileOp α) (d : Disk) : Prop :=
  p.Does Disk.exec Syscall.isWait Syscall.isPost Disk.KeepsName ok d

/-- Every step of the program spares a blocked student. -/
abbrev DoesSpare (s : CString) (p : FileOp α) (d : Disk) : Prop :=
  Does (fun _ d _ d' => d.Spares s d') p d

section Rules

variable {ok : FileOp β → Disk → FileOp β → Disk → Prop} {d : Disk}

/-- A file is opened. -/
theorem does_openFile {f : FileName} {create : Bool} {next : Option Nat → FileOp β}
    (hok : ∀ d' : Disk, d.KeepsName d' → ok ((perform (.openFile f create)).bind next) d'
      (next ((d'.file f).openFile create).1)
      (d'.setFile f ((d'.file f).openFile create).2))
    (hnone : ∀ d', Does ok (next none) d')
    (hsome : ∀ d' fd, (d'.file f).named = some fd → Does ok (next (some fd)) d') :
    Does ok ((perform (.openFile f create)).bind next) d := by
  refine does_iff.mpr fun d' q d'' hd hq => ?_
  cases hq
  refine ⟨hok d' hd, ?_⟩
  cases hfd : ((d'.file f).openFile create).1 with
  | none => exact hnone _
  | some fd =>
    refine hsome _ fd ?_
    rw [Disk.file_setFile]
    exact NamedFile.named_of_openFile hfd

/-- A section. -/
theorem does_section {next : Unit → FileOp β}
    (h : ∀ d' q d'', d.KeepsName d' → d'.runSection (.call .semWait next) = some (q, d'') →
      ok (.call .semWait next) d' q d'' ∧ Does ok q d'') :
    Does ok (.call .semWait next) d :=
  does_iff.mpr fun d' q d'' hd hq => h d' q d'' hd hq

/-- A call outside the sections that changes no file. -/
theorem doesSpare_call {e : Syscall α} {next : α → FileOp β} (hwait : e.isWait = false)
    (hreads : e.reads = true) (h : ∀ r d', DoesSpare s (next r) d') :
    DoesSpare s (.call e next) d := by
  refine does_iff.mpr fun d' q d'' _ hq => ?_
  rw [advance_call hwait] at hq
  obtain ⟨⟨r, d₁⟩, he, heq⟩ := Option.map_eq_some_iff.mp hq
  cases heq
  rw [Disk.exec_of_reads hreads he]
  exact ⟨Disk.spares_refl d', h r d'⟩

/-- A program that changes no file. -/
theorem doesSpare_of_readsOnly {p : FileOp α} (hp : ReadsOnly p) : DoesSpare s p d := by
  refine does_of_calls Disk.spares_refl (fun _ _ _ h h' => h.trans h') ?_ hp d
  intro β e d₁ r d₂ he h
  rw [Disk.exec_of_reads he h]
  exact Disk.spares_refl d₁

/-- A file is opened, if it can be opened. -/
theorem doesSpare_withFile {f : FileName} {create : Bool} {code : α} {body : Nat → FileOp α}
    {g : α → FileOp β} (hcode : ∀ d', DoesSpare s (g code) d')
    (hbody : ∀ d' fd, (d'.file f).named = some fd → DoesSpare s ((body fd).bind g) d') :
    DoesSpare s ((withFile f create code body).bind g) d := by
  rw [withFile, bind_eq, Prog.bind_assoc]
  exact does_openFile (fun d' _ => Disk.spares_openFile f create) hcode hbody

end Rules

/-! ## The operations -/

section Operations

variable {d : Disk}

theorem doesSpare_appendRecord (f : FileName) (r : f.Record) {g : Int → FileOp α}
    (hg : ∀ code d', DoesSpare s (g code) d') : DoesSpare s ((appendRecord f r).bind g) d := by
  refine doesSpare_withFile (hg (-1)) fun d₀ fd hfd => does_section fun d₁ q d₂ hd hq => ?_
  have hrun : d₁.runSection ((appendSection f r fd).bind g) = some (q, d₂) := hq
  rw [Disk.runSection_append] at hrun
  cases hrun
  refine ⟨?_, hg 0 _⟩
  cases f with
  | students => exact Disk.spares_update (hd fd hfd) rfl fun h => h.append [r]
  | _ => exact Disk.spares_of_students_eq rfl

/-- A record is overwritten, in `students.dat` on the file that has the name. -/
theorem doesSpare_overwriteFirst {f : FileName} {found : f.Record → Option Bool}
    {edit : f.Record → Option f.Record} {g : Int → FileOp α}
    (hedit : ∀ (d' : Disk) fd out, (f = .students → d'.students.named = some fd) →
      overwriteIn found edit ((d'.file f).read fd) = some out →
      d'.Spares s (d'.setFile f ((d'.file f).update fd out.2)))
    (hg : ∀ code d', DoesSpare s (g code) d') :
    DoesSpare s ((overwriteFirst f found edit).bind g) d := by
  refine doesSpare_withFile (hg (-1)) fun d₀ fd hfd => does_section fun d₁ q d₂ hd hq => ?_
  have hrun : d₁.runSection ((overwriteSection f found edit fd).bind g) = some (q, d₂) := hq
  rw [Disk.runSection_overwrite] at hrun
  obtain ⟨out, hout, heq⟩ := Option.map_eq_some_iff.mp hrun
  cases heq
  refine ⟨hedit d₁ fd out (fun hf => ?_) hout, hg _ _⟩
  subst hf
  exact hd fd hfd

theorem doesSpare_overwriteStudent {id : CString} {edit : Student → Option Student}
    {g : Int → FileOp α}
    (hid : ∀ student student', edit student = some student' → student'.id = student.id)
    (hactive : ∀ student student', edit student = some student' → id = s → student.active = 0 →
      student'.active = 0)
    (hg : ∀ code d', DoesSpare s (g code) d') :
    DoesSpare s ((overwriteFirst .students (Student.strcmpId id) edit).bind g) d :=
  doesSpare_overwriteFirst (f := .students)
    (fun _ _ _ hnamed hout =>
      Disk.spares_update (hnamed rfl) rfl fun h => h.overwrite hid hactive hout) hg

theorem doesSpare_addCourse (id name facultyId : CString) (seats : Int) {g : Int → FileOp α}
    (hg : ∀ code d', DoesSpare s (g code) d') :
    DoesSpare s ((addCourse id name facultyId seats).bind g) d := by
  refine doesSpare_withFile (hg (-1)) fun d₀ fd _ => does_section fun d₁ q d₂ _ hq => ?_
  have hrun : d₁.runSection ((addCourseSection id name facultyId seats fd).bind g) =
      some (q, d₂) := hq
  rw [Disk.runSection_addCourse] at hrun
  obtain ⟨out, -, heq⟩ := Option.map_eq_some_iff.mp hrun
  cases heq
  exact ⟨Disk.spares_of_students_eq rfl, hg _ _⟩

theorem doesSpare_sweep (id : CString) {g : Unit → FileOp α}
    (hg : ∀ d', DoesSpare s (g ()) d') :
    DoesSpare s ((withFile .students false () (sweepSection id)).bind g) d := by
  refine doesSpare_withFile hg fun d₀ fd hfd => does_section fun d₁ q d₂ hd hq => ?_
  have hrun : d₁.runSection ((sweepSection id fd).bind g) = some (q, d₂) := hq
  rw [Disk.runSection_sweep] at hrun
  obtain ⟨records, hrecords, heq⟩ := Option.map_eq_some_iff.mp hrun
  cases heq
  refine ⟨Disk.spares_update (hd fd hfd) rfl fun h => ?_, hg _⟩
  rw [sweepIn_eq hrecords]
  exact h.clear id

theorem doesSpare_removeCourse (id : CString) {g : Int → FileOp α}
    (hg : ∀ code d', DoesSpare s (g code) d') : DoesSpare s ((removeCourse id).bind g) d := by
  refine doesSpare_withFile (hg (-1)) fun d₀ fd _ => does_section fun d₁ q d₂ _ hq => ?_
  have hrun : d₁.runSection ((removeSection id fd).bind
      fun found => (removeFromStudents id found).bind g) = some (q, d₂) := by
    rw [← Prog.bind_assoc]
    exact hq
  have hrest : ∀ found d', DoesSpare s ((removeFromStudents id (some found)).bind g) d' := by
    intro found d'
    rw [removeFromStudents, bind_eq, Prog.bind_assoc]
    exact doesSpare_sweep id fun d'' => hg _ d''
  rw [Disk.runSection_remove] at hrun
  obtain ⟨out, -, heq⟩ := Option.map_eq_some_iff.mp hrun
  split at heq
  · cases heq
    exact ⟨Disk.spares_of_students_eq rfl, hrest true _⟩
  · cases heq
    exact ⟨Disk.spares_refl d₁, hrest false _⟩

theorem doesSpare_unenrollRecord (studentId courseId : CString) {g : Int → FileOp α}
    (hg : ∀ code d', DoesSpare s (g code) d') :
    DoesSpare s ((unenrollRecord studentId courseId).bind g) d := by
  refine doesSpare_withFile (hg (-1)) fun d₀ fd hfd => does_section fun d₁ q d₂ hd hq => ?_
  have hrun : d₁.runSection ((unenrollSection studentId courseId fd).bind g) = some (q, d₂) := hq
  rw [Disk.runSection_unenroll] at hrun
  obtain ⟨out, hout, heq⟩ := Option.map_eq_some_iff.mp hrun
  cases heq
  exact ⟨Disk.spares_update (hd fd hfd) rfl fun h => h.unenrollIn hout, hg _ _⟩

theorem doesSpare_unenrollCourse (studentId courseId : CString) {g : Int → FileOp α}
    (hg : ∀ code d', DoesSpare s (g code) d') :
    DoesSpare s ((unenrollCourse studentId courseId).bind g) d := by
  refine doesSpare_withFile (hg (-1)) fun d₀ fd _ => does_section fun d₁ q d₂ _ hq => ?_
  have hrun : d₁.runSection ((unenrollRoster fd studentId courseId).bind
      fun _ => (unenrollRecord studentId courseId).bind g) = some (q, d₂) := by
    rw [← Prog.bind_assoc]
    exact hq
  rw [Disk.runSection_unenrollRoster] at hrun
  obtain ⟨records, -, heq⟩ := Option.map_eq_some_iff.mp hrun
  cases heq
  exact ⟨Disk.spares_of_students_eq rfl, doesSpare_unenrollRecord studentId courseId hg⟩

theorem doesSpare_enrollCourse (studentId courseId : CString) {g : Int → FileOp α}
    (hg : ∀ code d', DoesSpare s (g code) d') :
    DoesSpare s ((enrollCourse studentId courseId).bind g) d := by
  refine doesSpare_withFile (hg (-1)) fun d₀ fd hfd => does_section fun d₁ q d₂ hd hq => ?_
  have hrun : d₁.runSection ((enrollSection studentId courseId fd).bind g) = some (q, d₂) := hq
  rw [Disk.runSection_enroll] at hrun
  obtain ⟨out, hout, heq⟩ := Option.map_eq_some_iff.mp hrun
  cases heq
  exact ⟨Disk.spares_update (hd fd hfd) rfl fun h => h.enrollIn hout, hg _ _⟩

/-- An account with its record, if the account can be added. -/
theorem doesSpare_addSample (id password : CString) (role : Role) {f : FileName} (r : f.Record)
    {g : Unit → FileOp α} (hg : ∀ d', DoesSpare s (g ()) d') :
    DoesSpare s (Prog.bind (do
      if (← addUser id password role) = 0 then
        let _ ← appendRecord f r
        return
      else
        return) g) d := by
  rw [bind_eq, Prog.bind_assoc]
  refine doesSpare_appendRecord .users _ fun code d' => ?_
  split
  · rw [bind_eq, Prog.bind_assoc]
    exact doesSpare_appendRecord f r fun _ d'' => hg d''
  · exact hg d'

theorem doesSpare_addSamples {g : Unit → FileOp α} (hg : ∀ d', DoesSpare s (g ()) d') :
    DoesSpare s (initialSetup.addSamples.bind g) d := by
  rw [initialSetup.addSamples, bind_eq, Prog.bind_assoc]
  refine doesSpare_appendRecord .users _ fun code d' => ?_
  split
  · rw [bind_eq, Prog.bind_assoc]
    exact doesSpare_addSample _ _ _ (f := .students) _ fun d'' =>
      doesSpare_addSample _ _ _ (f := .faculty) _ hg
  · exact hg d'

theorem doesSpare_initialSetup {g : Unit → FileOp α} (hg : ∀ d', DoesSpare s (g ()) d') :
    DoesSpare s (initialSetup.bind g) d := by
  refine doesSpare_call rfl rfl fun fd d' => ?_
  cases fd with
  | none => exact doesSpare_addSamples hg
  | some fd =>
    refine doesSpare_call rfl rfl fun (records : List User) d'' => ?_
    cases records with
    | nil => exact doesSpare_addSamples hg
    | cons => exact hg d''

end Operations

/-- The operation activates the student. -/
def Operation.Unblocks (s : CString) : Operation → Prop
  | .activateDeactivateStudent id activate => id = s ∧ activate ≠ 0
  | _ => False

/-- The step that a session makes with the program is a section. -/
abbrev entersSection (p : FileOp α) : Bool := p.entersSection Syscall.isWait

/-- What a step of an operation does about the student. -/
structure Operation.Step (s : CString) (op : Operation) (p : FileOp Answer) (d : Disk)
    (q : FileOp Answer) (d' : Disk) : Prop where
  named : d.KeepsName d'
  stays : ¬ (op.Unblocks s ∧ entersSection p) → d.Blocked s → d'.Blocked s
  blocks : op = .activateDeactivateStudent s 0 → q = .ret (.code 0) → d'.Blocked s
  refuses : ∀ courseId, op = .enrollCourse s courseId → d.Blocked s →
    d' = d ∧ (entersSection p → ∃ code, code ≠ 0 ∧ q = .ret (.code code))

/-- An operation other than an activation and an enrolment. -/
theorem DoesSpare.step {op : Operation} {d : Disk} (h : DoesSpare s op.program d)
    (hactivate : ∀ activate, op ≠ .activateDeactivateStudent s activate)
    (henroll : ∀ courseId, op ≠ .enrollCourse s courseId) : Does (op.Step s) op.program d :=
  Does.mono h fun _ _ _ _ hs =>
    ⟨hs.named, fun _ => hs.blocked, fun hop => absurd hop (hactivate 0),
      fun courseId hop => absurd hop (henroll courseId)⟩

theorem does_activateDeactivateStudent (activate : Int) (d : Disk) :
    Does (Operation.Step s (.activateDeactivateStudent s activate))
      (Operation.activateDeactivateStudent s activate).program d := by
  refine does_openFile (f := .students) (fun d₁ hd => ?_) (fun d₁ => does_ret _ d₁)
    fun d₁ fd hfd => does_section fun d₂ q d₃ hd hq => ?_
  · -- the file is opened
    have hspares := Disk.spares_openFile (s := s) (d := d₁) .students false
    refine ⟨hspares.named, fun _ => hspares.blocked, fun _ hret => ?_, fun _ hop => by cases hop⟩
    cases hopen : ((d₁.file .students).openFile false).1 with
    | none =>
      rw [hopen] at hret
      cases hret
    | some fd =>
      rw [hopen] at hret
      cases hret
  · -- the section
    have hnamed := hd fd hfd
    have hrun : d₂.runSection ((overwriteSection .students (Student.strcmpId s)
        (fun student => some { student with active := activate }) fd).bind
          fun code => .ret (.code code)) = some (q, d₃) := hq
    rw [Disk.runSection_overwrite] at hrun
    obtain ⟨⟨code, records⟩, hout, heq⟩ := Option.map_eq_some_iff.mp hrun
    cases heq
    have hcontent : d₂.Blocked s → BlockedIn s (d₂.students.read fd) := fun h => by
      rwa [Disk.Blocked, NamedFile.content_of_named hnamed, Option.getD_some] at h
    have hafter : BlockedIn s records → (d₂.setFile .students
        ((d₂.file .students).update fd records)).Blocked s := fun h => by
      have hnew : (d₂.students.update fd records).content = some records :=
        NamedFile.content_update_self hnamed
      show BlockedIn s ((d₂.students.update fd records).content.getD [])
      rwa [hnew]
    refine ⟨⟨fun i hi => hi, fun hno hblocked => ?_, fun hop hret => ?_, fun _ hop => by cases hop⟩,
      does_ret _ _⟩
    · have hzero : activate = 0 := by
        by_contra hne
        exact hno ⟨⟨rfl, hne⟩, rfl⟩
      subst hzero
      refine hafter ((hcontent hblocked).overwrite (fun _ _ h => ?_) (fun _ _ h _ _ => ?_) hout)
      all_goals
        cases h
        rfl
    · cases hop
      cases hret
      exact hafter (blockedIn_of_overwrite hout)

theorem does_enrollCourse (courseId : CString) (d : Disk) :
    Does (Operation.Step s (.enrollCourse s courseId))
      (Operation.enrollCourse s courseId).program d := by
  refine does_openFile (f := .students) (fun d₁ _ => ?_) (fun d₁ => does_ret _ d₁)
    fun d₁ fd hfd => does_section fun d₂ q d₃ hd hq => ?_
  · -- the file is opened
    have hspares := Disk.spares_openFile (s := s) (d := d₁) .students false
    have hsame : d₁.setFile .students ((d₁.file .students).openFile false).2 = d₁ :=
      Disk.exec_of_reads (e := .openFile .students false) rfl rfl
    exact ⟨hspares.named, fun _ => hspares.blocked, fun hop => (by cases hop),
      fun _ _ _ => ⟨hsame, fun h => (by cases h)⟩⟩
  · -- the section
    have hnamed := hd fd hfd
    have hrun : d₂.runSection ((enrollSection s courseId fd).bind fun code => .ret (.code code)) =
        some (q, d₃) := hq
    rw [Disk.runSection_enroll] at hrun
    obtain ⟨out, hout, heq⟩ := Option.map_eq_some_iff.mp hrun
    cases heq
    have hspares : d₂.Spares s (d₂.enrolled fd out.2.1 out.2.2) :=
      Disk.spares_update hnamed rfl fun h => h.enrollIn hout
    refine ⟨⟨hspares.named, fun _ => hspares.blocked, fun hop => (by cases hop),
      fun _ _ hblocked => ?_⟩, does_ret _ _⟩
    rw [Disk.Blocked, NamedFile.content_of_named hnamed, Option.getD_some] at hblocked
    obtain rfl := enrollIn_of_blockedIn hblocked hout
    exact ⟨Disk.enrolled_eq_self fd, fun _ => ⟨errInvalidInput, by decide, rfl⟩⟩

/-- What each step of each operation does about a student. -/
theorem Operation.does_program (s : CString) (op : Operation) (d : Disk) :
    Does (op.Step s) op.program d := by
  have hret : ∀ {β : Type} (answer : β → Answer) (r : β) (d' : Disk),
      DoesSpare s (.ret (answer r) : FileOp Answer) d' := fun _ _ d' => does_ret _ d'
  have hreads : ∀ {β : Type} {p : FileOp β} (answer : β → Answer), ReadsOnly p →
      DoesSpare s (answer <$> p) d := fun answer hp =>
    doesSpare_of_readsOnly (hp.bind fun r => readsOnly_pure (answer r))
  cases op with
  | addUser | addStudent | addFaculty =>
    exact DoesSpare.step (doesSpare_appendRecord _ _ (hret _)) (fun _ h => by cases h)
      fun _ h => by cases h
  | activateDeactivateStudent id activate =>
    -- the only operation that may end the blocking, if it is for this student
    by_cases hs : id = s
    · subst hs
      exact does_activateDeactivateStudent activate d
    · refine DoesSpare.step (doesSpare_overwriteStudent (fun _ _ h => ?_)
        (fun _ _ _ hid => absurd hid hs) (hret _)) (fun _ h => ?_) fun _ h => by cases h
      · cases h
        rfl
      · cases h
        exact hs rfl
  | updateStudent id newName =>
    refine DoesSpare.step (doesSpare_overwriteStudent (fun _ _ h => ?_) (fun _ _ h _ hzero => ?_)
      (hret _)) (fun _ h => by cases h) fun _ h => by cases h
    · cases h
      rfl
    · cases h
      exact hzero
  | updateFaculty | changePassword | updateCourse =>
    exact DoesSpare.step (doesSpare_overwriteFirst
      (fun _ _ _ _ _ => Disk.spares_of_students_eq rfl) (hret _)) (fun _ h => by cases h)
      fun _ h => by cases h
  | addCourse id name facultyId seats =>
    exact DoesSpare.step (doesSpare_addCourse id name facultyId seats (hret _))
      (fun _ h => by cases h) fun _ h => by cases h
  | removeCourse id =>
    exact DoesSpare.step (doesSpare_removeCourse id (hret _)) (fun _ h => by cases h)
      fun _ h => by cases h
  | enrollCourse studentId courseId =>
    -- of the student it is refused, of others it does not reach the record
    by_cases hs : studentId = s
    · subst hs
      exact does_enrollCourse courseId d
    · refine DoesSpare.step (doesSpare_enrollCourse studentId courseId (hret _))
        (fun _ h => by cases h) fun _ h => ?_
      cases h
      exact hs rfl
  | unenrollCourse studentId courseId =>
    exact DoesSpare.step (doesSpare_unenrollCourse studentId courseId (hret _))
      (fun _ h => by cases h) fun _ h => by cases h
  | viewEnrolledCourses studentId =>
    exact DoesSpare.step (hreads _ (readsOnly_viewEnrolledCourses studentId))
      (fun _ h => by cases h) fun _ h => by cases h
  | viewCourseEnrollments courseId =>
    exact DoesSpare.step (hreads _ (readsOnly_viewCourseEnrollments courseId))
      (fun _ h => by cases h) fun _ h => by cases h
  | viewAllCourses | viewFacultyCourses | viewAllStudents | viewAllFaculty =>
    exact DoesSpare.step (hreads _ (readsOnly_listing _ _)) (fun _ h => by cases h)
      fun _ h => by cases h
  | authenticate userId password expectedRole =>
    exact DoesSpare.step (hreads _ (readsOnly_authenticate userId password expectedRole))
      (fun _ h => by cases h) fun _ h => by cases h
  | initialSetup =>
    exact DoesSpare.step (doesSpare_initialSetup fun d' => does_ret _ d') (fun _ h => by cases h)
      fun _ h => by cases h

/-! ## Runs -/

section Runs

variable {ι : Type} [DecidableEq ι] {disk : Disk} {ops : ι → Operation}
  {history : List (Event (OpServer ι) ι)} {x : OpServer ι}

/-- The sessions before their first step. -/
def OpServer.start (disk : Disk) (ops : ι → Operation) : OpServer ι :=
  ⟨disk, fun t => (ops t).program⟩

/-- The step is a section. -/
def isSection (e : Event (OpServer ι) ι) : Bool := entersSection (e.before.rest e.label)

/-- What the steps of a run do about a student. -/
theorem step_of_run (s : CString) (hr : Run OpServer.step (.start disk ops) history x) :
    ∀ e ∈ history, (ops e.label).Step s (e.before.rest e.label) e.before.state
      (e.after.rest e.label) e.after.state :=
  Sectioned.does_of_run (fun _ _ h => h) (fun _ _ _ h h' => h.trans h') (fun _ _ _ _ _ h => h.named)
    (fun t => (ops t).does_program s disk) hr

/-- The student stays blocked as long as no section activates him. -/
theorem blocked_of_run {past : List (Event (OpServer ι) ι)} {e : Event (OpServer ι) ι}
    (hr : Run OpServer.step (.start disk ops) (history ++ e :: past) x)
    (hblocked : e.after.state.Blocked s)
    (hno : ∀ b ∈ history, isSection b → ¬ (ops b.label).Unblocks s) : x.state.Blocked s := by
  induction history generalizing x with
  | nil =>
    obtain _ | ⟨-, -⟩ := hr
    exact hblocked
  | cons b history ih =>
    have hstep := step_of_run s hr b List.mem_cons_self
    have hnot := hno b List.mem_cons_self
    have hrest := fun c hc => hno c (List.mem_cons_of_mem b hc)
    obtain _ | ⟨hr, -⟩ := hr
    exact hstep.stays (fun h => hnot h.2 h.1) (ih hr hrest)

/-- For every store and every run of all operations, by any sessions: once the student has been
blocked, and as long as no section activates him, every section of `enroll_course` for him
returns a code other than 0 and leaves all files as they are. -/
theorem blocked_refused {later between earlier : List (Event (OpServer ι) ι)}
    {e e' : Event (OpServer ι) ι} {courseId : CString}
    (hr : Run OpServer.step (.start disk ops) (later ++ e' :: (between ++ e :: earlier)) x)
    (hblock : ops e.label = .activateDeactivateStudent s 0)
    (hreturned : e.after.rest e.label = .ret (.code 0))
    (hno : ∀ b ∈ between, isSection b → ¬ (ops b.label).Unblocks s)
    (henroll : ops e'.label = .enrollCourse s courseId) (hsection : isSection e') :
    (∃ code, code ≠ 0 ∧ e'.after.rest e'.label = .ret (.code code)) ∧
      e'.after.state = e'.before.state := by
  have hrun := hr.of_append
  have hstep := step_of_run s hrun e' List.mem_cons_self
  obtain _ | ⟨hbefore, -⟩ := hrun
  have hblocked := (step_of_run s hbefore.of_append e List.mem_cons_self).blocks hblock hreturned
  obtain ⟨hsame, hcode⟩ := hstep.refuses courseId henroll (blocked_of_run hbefore hblocked hno)
  exact ⟨hcode hsection, hsame⟩

/-- A student who is blocked and tries to enroll. -/
def blockAndEnroll : Bool → Operation
  | false => .activateDeactivateStudent (.ofString "s1") 0
  | true => .enrollCourse (.ofString "s1") (.ofString "c1")

def sampleStudent : Disk :=
  { Disk.empty with
    students := NamedFile.missing.rename [newStudent (.ofString "s1") (.ofString "John")] }

theorem blocked_refused_blockAndEnroll : ∃ (e' : Event (OpServer Bool) Bool) (x : OpServer Bool)
    (past : List (Event (OpServer Bool) Bool)),
    Run OpServer.step (.start sampleStudent blockAndEnroll) (e' :: past) x ∧
      (∃ code, code ≠ 0 ∧ e'.after.rest e'.label = .ret (.code code)) ∧
      e'.after.state = e'.before.state := by
  have hr : Run OpServer.step (.start sampleStudent blockAndEnroll) _ _ :=
    (((Run.start.snoc (l := false) rfl).snoc (l := false) rfl).snoc (l := true) rfl).snoc
      (l := true) rfl
  have hrefused :=
    @blocked_refused (.ofString "s1") Bool _ sampleStudent blockAndEnroll _ [] [_] [_] _ _
    (.ofString "c1") hr rfl rfl (by simp [blockAndEnroll, Operation.Unblocks]) rfl rfl
  exact ⟨_, _, _, hr, hrefused⟩

end Runs

end AcademiaCr.Academia
