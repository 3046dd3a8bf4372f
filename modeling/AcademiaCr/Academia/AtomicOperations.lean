import AcademiaCr.Library.OneByOne
import AcademiaCr.Academia.SectionAtomicity

/-!
# Operations that take effect at once

All operations but `remove_course` and `unenroll_course` have one section, and open nothing that
matters before it as long as the files exist and keep their names. So sessions that perform
only such operations, call by call and in any interleaving, get the answers and leave the files
of sessions that perform one whole operation at a time, in the order in which they have taken
`file_sem`. Since an operation takes `file_sem` while it is executed, one that has returned
before another one began is also performed before it.

## Main definitions

- `Operation.single`: the operations with one section
- `Disk.Names`: all files exist, under these names
- `operations_atomic`: sessions perform whole operations one by one
-/

namespace AcademiaCr.Academia

open CLang RecordFile Resumption Prog Transition

variable {α β ι : Type}

/-- The operations with one section. -/
def Operation.single : Operation → Bool
  | .removeCourse _ | .unenrollCourse _ _ | .initialSetup => false
  | _ => true

/-- The inode that each name stands for. -/
def Disk.Names (names : FileName → Nat) (d : Disk) : Prop :=
  ∀ f, (d.file f).named = some (names f)

/-! ## Calls that leave the names -/

section Calls

variable {names : FileName → Nat} {d d' : Disk} {f : FileName}

theorem Disk.exec_openFile (h : d.Names names) (create : Bool) :
    exec (.openFile f create) d = some (some (names f), d) := by
  rw [exec, NamedFile.openFile_of_named create (h f), setFile_file]

theorem Disk.Names.update (h : d.Names names) (fd : Nat) (records : List f.Record) :
    (d.setFile f ((d.file f).update fd records)).Names names := by
  intro g
  by_cases hg : g = f
  · subst hg
    rw [file_setFile, NamedFile.named_update]
    exact h g
  · rw [file_setFile_ne d hg]
    exact h g

/-- The only call that gives a name to another file. -/
def Syscall.renames : Syscall β → Bool
  | .renameTemp => true
  | _ => false

theorem keeps_names {e : Syscall β} (h : e.renames = false) :
    fileGuard.Keeps (Disk.Names names) e := by
  intro d r d' hd hexec
  have hexec : Disk.exec e d = some (r, d') := hexec
  cases e with
  | openFile f create =>
    rw [Disk.exec_openFile hd] at hexec
    cases hexec
    exact hd
  | append f fd r =>
    cases hexec
    exact hd.update fd _
  | write f fd pos r =>
    cases hexec
    exact hd.update fd _
  | renameTemp => cases h
  | openTemp | writeTemp =>
    cases hexec
    intro f
    have hf := hd f
    cases f <;> exact hf
  | stray => cases hexec
  | _ =>
    cases hexec
    exact hd

end Calls

/-! ## Programs with one section -/

section Rules

variable {names : FileName → Nat} {f : FileName}

/-- A part of a section that does not rename. -/
abbrev InSection (names : FileName → Nat) (p : FileOp α) : Prop :=
  p.Inner fileGuard (Disk.Names names)

/-- The rest of a section, with nothing after it. -/
abbrev EndsSection (names : FileName → Nat) (p : FileOp α) : Prop :=
  p.Ends fileGuard (Disk.Names names)

abbrev Single (names : FileName → Nat) (p : FileOp α) : Prop :=
  p.OneSection fileGuard (Disk.Names names)

theorem inSection_pure (a : α) : InSection names (pure a : FileOp α) := trivial

theorem inSection_perform {e : Syscall β} (hpost : e.isPost = false) (h : e.renames = false) :
    InSection names (perform e) :=
  ⟨⟨hpost, keeps_names h⟩, fun _ => trivial⟩

theorem InSection.bind {p : FileOp α} {g : α → FileOp β} (hp : InSection names p)
    (hg : ∀ a, InSection names (g a)) : InSection names (p >>= g) :=
  calls_bind hp hg

theorem EndsSection.bind {p : FileOp α} {g : α → FileOp β} (hp : InSection names p)
    (hg : ∀ a, EndsSection names (g a)) : EndsSection names (p >>= g) :=
  Ends.bind hp hg

theorem endsSection_call {e : Syscall β} {next : β → FileOp α} (hpost : e.isPost = false)
    (h : e.renames = false) (hnext : ∀ r, EndsSection names (next r)) :
    EndsSection names (perform e >>= next) :=
  EndsSection.bind (inSection_perform hpost h) hnext

theorem endsSection_release (code : α) : EndsSection names (release code) :=
  ⟨keeps_names rfl, fun _ => ⟨code, rfl⟩⟩

theorem inSection_access (x : Option α) : InSection names (access x) := by
  cases x with
  | none => exact inSection_perform rfl rfl
  | some a => exact inSection_pure a

/-- A file is opened, and the rest is its section. -/
theorem single_section {create : Bool} {code : α} {body : Nat → FileOp α}
    (hbody : ∀ fd, EndsSection names (body fd)) :
    Single names (withFile f create code fun fd => do
      perform .semWait
      body fd) := by
  have hopen : ∀ d : Disk, d.Names names →
      Disk.exec (.openFile f create) d = some (some (names f), d) :=
    fun d hd => Disk.exec_openFile hd create
  exact .fixed (some (names f)) rfl hopen
    (.inside rfl rfl (keeps_names rfl) fun _ => hbody (names f))

end Rules

/-! ## The operations -/

section Operations

variable {names : FileName → Nat}

theorem single_appendRecord (f : FileName) (r : f.Record) : Single names (appendRecord f r) :=
  single_section fun _ => endsSection_call rfl rfl fun _ => endsSection_release 0

theorem single_addCourse (id name facultyId : CString) (seats : Int) :
    Single names (addCourse id name facultyId seats) := by
  refine single_section fun fd => endsSection_call rfl rfl fun records =>
    EndsSection.bind (inSection_access _) fun found => ?_
  split
  · exact endsSection_release (-1)
  · exact endsSection_call rfl rfl fun _ => endsSection_release 0

theorem single_overwriteFirst (f : FileName) (found : f.Record → Option Bool)
    (edit : f.Record → Option f.Record) : Single names (overwriteFirst f found edit) := by
  refine single_section fun fd => endsSection_call rfl rfl fun records =>
    EndsSection.bind (inSection_access _) fun first => ?_
  split
  · exact endsSection_release (-1)
  · next pos r =>
    refine EndsSection.bind (inSection_access (edit r)) fun r' => ?_
    exact endsSection_call rfl rfl fun _ => endsSection_release 0

theorem endsSection_enrollInCourse (studentId courseId : CString) (sfd spos : Nat)
    (student : Student) (emptySlot : Nat) :
    EndsSection names (enrollInCourse studentId courseId sfd spos student emptySlot) := by
  refine endsSection_call rfl rfl fun cfd => ?_
  cases cfd with
  | none => exact endsSection_release (-1)
  | some cfd =>
    refine endsSection_call rfl rfl fun records =>
      EndsSection.bind (inSection_access _) fun found => ?_
    split
    · exact endsSection_release _
    · split
      · exact endsSection_release _
      · refine EndsSection.bind (inSection_access _) fun entry => ?_
        cases entry with
        | some _ => exact endsSection_release _
        | none =>
          refine EndsSection.bind (inSection_access _) fun slots => ?_
          refine endsSection_call rfl rfl fun _ => ?_
          refine EndsSection.bind (inSection_access _) fun roster => ?_
          exact endsSection_call rfl rfl fun _ => endsSection_release 0

theorem single_enrollCourse (studentId courseId : CString) :
    Single names (enrollCourse studentId courseId) := by
  refine single_section fun sfd => endsSection_call rfl rfl fun records =>
    EndsSection.bind (inSection_access _) fun found => ?_
  split
  · exact endsSection_release _
  · split
    · exact endsSection_release _
    · refine EndsSection.bind (inSection_access _) fun scanned => ?_
      split
      · exact endsSection_release _
      · exact endsSection_release _
      · exact endsSection_enrollInCourse _ _ _ _ _ _

theorem inSection_appendText (bufferSize : Nat) (result info : CString) :
    InSection names (appendText bufferSize result info) := by
  rw [appendText]
  split
  · refine (inSection_perform rfl rfl).bind fun grown => ?_
    split <;> exact inSection_pure _
  · exact inSection_pure _

theorem inSection_appendLines {ρ : Type} (fmt : Format ρ) (records : List ρ) (bufferSize : Nat)
    (result : CString) (count : Nat) :
    InSection names (appendLines fmt records bufferSize result count) := by
  induction records generalizing bufferSize result count with
  | nil => exact inSection_pure _
  | cons r rest ih =>
    rw [appendLines]
    refine (inSection_access _).bind fun found => ?_
    split
    · refine (inSection_access _).bind fun line => (inSection_appendText _ _ _).bind fun out => ?_
      split
      · exact inSection_pure _
      · exact ih _ _ _
    · exact ih _ _ _

theorem inSection_appendNone (noneText : CString) (bufferSize : Nat) (result : CString)
    (count : Nat) : InSection names (appendNone noneText bufferSize result count) := by
  rw [appendNone]
  split
  · exact inSection_appendText _ _ _
  · exact inSection_pure _

theorem endsSection_finishText (out : Option (Nat × CString)) :
    EndsSection names (finishText out) := by
  cases out with
  | none => exact endsSection_release _
  | some out => exact endsSection_release _

theorem endsSection_malloc {body : FileOp (Option CString)} (hbody : EndsSection names body) :
    EndsSection names (do if ← perform .malloc then body else release none) := by
  refine endsSection_call rfl rfl fun allocated => ?_
  split
  · exact hbody
  · exact endsSection_release _

theorem single_listing (f : FileName) (fmt : Format f.Record) : Single names (listing f fmt) := by
  refine single_section fun fd => endsSection_malloc ?_
  refine endsSection_call rfl rfl fun records =>
    EndsSection.bind (inSection_appendLines fmt _ _ _ _) fun out => ?_
  split
  · exact endsSection_release _
  · exact EndsSection.bind (inSection_appendNone _ _ _ _) fun out => endsSection_finishText out

theorem inSection_slotLines (student : Student) : InSection names (slotLines student) := by
  refine (inSection_appendLines _ _ _ _ _).bind fun out => ?_
  split
  · exact inSection_pure _
  · exact inSection_appendNone _ _ _ _

theorem inSection_rosterLines (fmt : Format Id) (roster : CArray Id maxUsers) (i : Int)
    (k bufferSize : Nat) (result : CString) (count : Nat) :
    InSection names (rosterLines fmt roster i k bufferSize result count) := by
  induction k generalizing i bufferSize result count with
  | zero => exact inSection_pure _
  | succ k ih =>
    refine (inSection_access _).bind fun entry => (inSection_access _).bind fun line =>
      (inSection_appendText _ _ _).bind fun out => ?_
    split
    · exact inSection_pure _
    · exact ih _ _ _ _

theorem inSection_enrollmentLines (fmt : Format Id) (course : Course) :
    InSection names (enrollmentLines fmt course) := by
  refine (inSection_rosterLines _ _ _ _ _ _ _).bind fun out => ?_
  split
  · exact inSection_pure _
  · exact inSection_appendNone _ _ _ _

theorem single_viewEnrolledCourses (studentId : CString) :
    Single names (viewEnrolledCourses studentId) := by
  refine single_section fun fd => endsSection_malloc (endsSection_call rfl rfl fun records =>
    EndsSection.bind (inSection_access _) fun found => ?_)
  split
  · exact EndsSection.bind (inSection_slotLines _) fun out => endsSection_finishText out
  · exact EndsSection.bind (inSection_appendText _ _ _) fun out => endsSection_finishText out

theorem single_viewCourseEnrollments (courseId : CString) :
    Single names (viewCourseEnrollments courseId) := by
  refine single_section fun fd => endsSection_malloc (endsSection_call rfl rfl fun records =>
    EndsSection.bind (inSection_access _) fun found => ?_)
  split
  · exact EndsSection.bind (inSection_enrollmentLines _ _) fun out => endsSection_finishText out
  · exact EndsSection.bind (inSection_appendText _ _ _) fun out => endsSection_finishText out

theorem single_authenticate (userId password : CString) (expectedRole : Role) :
    Single names (authenticate userId password expectedRole) :=
  single_section fun _ => endsSection_call rfl rfl fun _ =>
    EndsSection.bind (inSection_access _) fun _ => endsSection_release _

theorem Operation.oneSection {op : Operation} (hop : op.single = true)
    (names : FileName → Nat) : Single names op.program := by
  cases op with
  | addUser | addStudent | addFaculty => exact (single_appendRecord _ _).map _
  | activateDeactivateStudent | updateStudent | updateFaculty | changePassword | updateCourse =>
    exact (single_overwriteFirst _ _ _).map _
  | addCourse => exact (single_addCourse _ _ _ _).map _
  | removeCourse => cases hop
  | enrollCourse => exact (single_enrollCourse _ _).map _
  | unenrollCourse => cases hop
  | viewEnrolledCourses => exact (single_viewEnrolledCourses _).map _
  | viewCourseEnrollments => exact (single_viewCourseEnrollments _).map _
  | viewAllCourses | viewFacultyCourses | viewAllStudents | viewAllFaculty =>
    exact (single_listing _ _).map _
  | initialSetup => cases hop
  | authenticate => exact (single_authenticate _ _ _).map _

end Operations

/-! ## Sessions -/

/-- Sessions that perform one whole operation at a time. -/
abbrev OperationServer (ι : Type) := OneByOne Operation Answer ι Disk

def OperationServer.start {ι : Type} (d : Disk) (ops : ι → List Operation) : OperationServer ι :=
  ⟨d, ops, fun _ => []⟩

section Sessions

variable [DecidableEq ι]

/-- A session performs its next operation. -/
def OperationServer.step (y : OperationServer ι) (t : ι) : Option (OperationServer ι) :=
  OneByOne.step fileGuard Operation.program y t

/-- Sessions whose operations have one section, on files that exist: whatever their system calls, of
which the loop that reads through a file is one, do in between, when `file_sem` is free, the files
are those of sessions that perform whole operations one by one, in the order in which `file_sem` has
been taken, and a session that has returned has got the answers that it gets there. -/
theorem operations_atomic {d : Disk} {ops : ι → List Operation}
    {history : List (Event (CallServer ι) ι)} {x : CallServer ι}
    (hfiles : ∀ f, (d.file f).named ≠ none) (hops : ∀ t, ∀ op ∈ ops t, op.single = true)
    (hr : Run CallServer.step (.start d ops) history x) (hvalue : x.value = 1) :
    ∃ past y, Run OperationServer.step (.start d ops) past y ∧
      past.map (·.label) = CallServer.entered history ∧ y.state = x.state ∧
      ∀ t answers, x.rest t = .ret answers → y.todo t = [] ∧ y.answers t = answers := by
  have hsession : ∀ t, ∀ op ∈ ops t, op.OfSession := by
    rintro t op hop rfl
    cases hops t _ hop
  have hnames : d.Names fun f => (d.file f).named.getD 0 := by
    intro f
    obtain ⟨fd, hfd⟩ := Option.ne_none_iff_exists'.mp (hfiles f)
    show (d.file f).named = some ((d.file f).named.getD 0)
    rw [hfd, Option.getD_some]
  obtain ⟨history', hr', horder⟩ :=
    sectioned_of_run (fun t => sectional_answering (hsession t) d) hr hvalue
  obtain ⟨past, y, hrun, hpast, hperforms⟩ :=
    oneByOne_of_run (fun t op hop => op.oneSection (hops t op hop) _) hnames hr'
  exact ⟨past, y, hrun, hpast.trans horder, hperforms.state,
    fun t answers hret => hperforms.returned hret⟩

/-- All files exist and are empty. -/
def Disk.blank : Disk :=
  ⟨.rename .missing [], .rename .missing [], .rename .missing [], .rename .missing [], none⟩

/-- A session adds a user, and another one logs in as this user. -/
def addAndLogIn (first : Bool) : List Operation :=
  if first then [.addUser (.ofString "s2") (.ofString "pw") .student]
  else [.authenticate (.ofString "s2") (.ofString "pw") .student]

/-- Both sessions have opened `users.dat` before the user is added. -/
theorem operations_atomic_addAndLogIn : ∃ history x,
    Run CallServer.step (.start .blank addAndLogIn) history x ∧
    x.rest false = .ret [.login (some true)] ∧
    ∃ past y, Run OperationServer.step (.start .blank addAndLogIn) past y ∧
      past.map (·.label) = CallServer.entered history ∧ y.state = x.state ∧
      ∀ t answers, x.rest t = .ret answers → y.todo t = [] ∧ y.answers t = answers := by
  have hfiles : ∀ f, (Disk.blank.file f).named ≠ none := by
    intro f
    cases f <;> exact nofun
  have hops : ∀ t, ∀ op ∈ addAndLogIn t, op.single = true := by
    rintro t op hop
    cases t <;> cases List.mem_singleton.mp hop <;> rfl
  have hrun : Run CallServer.step (.start .blank addAndLogIn) [] (.start .blank addAndLogIn) :=
    .start
  have hrun := (hrun.snoc (l := false) rfl).snoc (l := true) rfl
  have hrun := (hrun.snoc (l := true) rfl).snoc (l := true) rfl
  have hrun := (hrun.snoc (l := true) rfl).snoc (l := false) rfl
  have hrun := (hrun.snoc (l := false) rfl).snoc (l := false) rfl
  exact ⟨_, _, hrun, rfl, operations_atomic hfiles hops hrun rfl⟩

end Sessions

end AcademiaCr.Academia
