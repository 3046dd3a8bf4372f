import AcademiaCr.Library.Reduction
import AcademiaCr.Academia.Blocking

/-!
# The sections under `file_sem` are atomic

Sessions make their system calls one at a time, and `file_sem` keeps them out of each other's
sections. Outside of the sections they open files, also while another session is inside one. A
section has at most one call that depends on the names of the files: `enroll_course` opens
`courses.dat` inside its section, and `remove_course` renames the temporary file. So whatever
the sessions reach call by call, they reach with each section as one step.

## Main definitions

- `fileGuard`: the system calls, and which of them commute with opening a file
- `Operation.sectional`: the calls of every operation of a session
- `CallServer`, `CallServer.step`: sessions and `file_sem`, call by call
- `opServer_of_callServer`: atomic sections reach the same
-/

namespace AcademiaCr.Academia

open CLang RecordFile Resumption Prog Transition

variable {α β γ ι : Type}

/-! ## Calls that commute -/

namespace Disk

/-- The descriptor is one of a file that has been opened. -/
def Opened (d : Disk) (f : FileName) (fd : Nat) : Prop := fd < (d.file f).inodes.length

/-- No file that has been opened is lost. -/
def Keeps (d d' : Disk) : Prop :=
  ∀ f : FileName, (d.file f).inodes.length ≤ (d'.file f).inodes.length

variable {d d' : Disk} {f g : FileName} {fd : Nat}

theorem Opened.keep (h : d.Opened f fd) (hd : d.Keeps d') : d'.Opened f fd :=
  Nat.lt_of_lt_of_le h (hd f)

theorem keeps_setFile {x : NamedFile f.Record} (h : (d.file f).inodes.length ≤ x.inodes.length) :
    d.Keeps (d.setFile f x) := by
  intro g
  by_cases hg : g = f
  · subst hg
    rwa [file_setFile]
  · exact Nat.le_of_eq (by rw [file_setFile_ne d hg])

theorem keeps_update (records : List f.Record) :
    d.Keeps (d.setFile f ((d.file f).update fd records)) :=
  keeps_setFile (Nat.le_of_eq (List.length_set ..).symm)

theorem keeps_exec {e : Syscall β} {r : β} (h : exec e d = some (r, d')) : d.Keeps d' := by
  have hrefl : ∀ d : Disk, d.Keeps d := fun _ _ => Nat.le_refl _
  cases e with
  | openFile f create =>
    cases h
    exact keeps_setFile (NamedFile.length_openFile create)
  | append f fd r =>
    cases h
    exact keeps_update _
  | write f fd pos r =>
    cases h
    exact keeps_update _
  | renameTemp =>
    cases ht : d.temp with
    | none =>
      simp only [exec, ht] at h
      cases h
      exact hrefl d
    | some records =>
      simp only [exec, ht] at h
      cases h
      intro g
      cases g with
      | courses =>
        show d.courses.inodes.length ≤ (d.courses.inodes ++ [records]).length
        rw [List.length_append]
        exact Nat.le_add_right ..
      | _ => exact Nat.le_refl _
  | stray => cases h
  | _ =>
    cases h
    exact hrefl _

theorem setFile_comm (hfg : f ≠ g) (x : NamedFile f.Record) (y : NamedFile g.Record) :
    (d.setFile f x).setFile g y = (d.setFile g y).setFile f x := by
  cases f <;> cases g <;> first | rfl | exact absurd rfl hfg

/-- What `open` does to the files. -/
def opening (g : FileName) (create : Bool) (d : Disk) : Disk :=
  d.setFile g ((d.file g).openFile create).2

/-- What `append` and `write` do to them. -/
def writing (f : FileName) (fd : Nat) (k : List f.Record → List f.Record) (d : Disk) : Disk :=
  d.setFile f ((d.file f).update fd (k ((d.file f).read fd)))

variable (create : Bool) (k : List f.Record → List f.Record)

theorem read_opening : ((d.opening g create).file f).read fd = (d.file f).read fd := by
  rw [opening]
  by_cases h : f = g
  · subst h
    rw [file_setFile, NamedFile.read_openFile]
  · rw [file_setFile_ne d h]

/-- A file is written to and another one, or the same one, is opened, in either order. -/
theorem opening_writing (h : d.Opened f fd) :
    (((d.writing f fd k).file g).openFile create).1 = ((d.file g).openFile create).1 ∧
      (d.writing f fd k).opening g create = (d.opening g create).writing f fd k := by
  by_cases hfg : g = f
  · subst hfg
    simp only [opening, writing, file_setFile, NamedFile.openFile_update create h,
      NamedFile.read_openFile, setFile_setFile, and_self]
  · simp only [opening, writing, file_setFile_ne d hfg, file_setFile_ne d (Ne.symm hfg), true_and]
    exact setFile_comm (Ne.symm hfg) _ _

end Disk

namespace Syscall

/-- What sessions do outside of their sections. -/
def light : Syscall β → Prop
  | .openFile _ _ | .malloc | .realloc | .stray _ => True
  | _ => False

/-- A call that neither asks nor changes what a name stands for. -/
def movable : Syscall β → Disk → Prop
  | .openFile _ _, _ | .renameTemp, _ => False
  | .append f fd _, d | .write f fd _ _, d => d.Opened f fd
  | _, _ => True

/-- A movable call and one outside of sections do the same in either order. -/
theorem movable_light {e : Syscall β} {o : Syscall γ} {d : Disk} (he : e.movable d)
    (ho : o.light) :
    ((Disk.exec e d).bind fun out => (Disk.exec o out.2).map fun out' => (out.1, out')) =
      (Disk.exec o d).bind fun out => (Disk.exec e out.2).map fun out' =>
        (out'.1, out.1, out'.2) := by
  cases o with
  | openFile g create =>
    cases e with
    | append f fd r =>
      obtain ⟨hanswer, hdisk⟩ := Disk.opening_writing (g := g) create (· ++ [r]) he
      exact congrArg some (congrArg (Prod.mk ()) (Prod.ext hanswer hdisk))
    | write f fd pos r =>
      obtain ⟨hanswer, hdisk⟩ := Disk.opening_writing (g := g) create (·.set pos r) he
      exact congrArg some (congrArg (Prod.mk ()) (Prod.ext hanswer hdisk))
    | read f fd =>
      exact congrArg some (Prod.ext (Disk.read_opening create).symm rfl)
    | openFile => exact he.elim
    | renameTemp => exact he.elim
    | openTemp | writeTemp => cases g <;> rfl
    | _ => rfl
  | malloc | realloc =>
    have hexec : ((Disk.exec e d).bind fun out => some (out.1, true, out.2)) =
        (Disk.exec e d).map fun out => (out.1, true, out.2) := by
      cases Disk.exec e d <;> rfl
    exact hexec
  | stray =>
    have hexec : ((Disk.exec e d).bind fun _ => none) = (none : Option (β × γ × Disk)) := by
      cases Disk.exec e d <;> rfl
    exact hexec
  | _ => exact ho.elim

end Syscall

/-- The system calls of sessions: sections begin with `sem_wait` and end with `sem_post`. -/
def fileGuard : Guard Syscall Disk where
  exec := Disk.exec
  first := Syscall.isWait
  last := Syscall.isPost
  light := Syscall.light
  movable := Syscall.movable
  grows := Disk.Keeps
  refl _ _ := Nat.le_refl _
  trans h h' f := Nat.le_trans (h f) (h' f)
  grows_exec := Disk.keeps_exec
  movable_grows := by
    rintro β e d d' h hd
    cases e with
    | openFile => exact h.elim
    | renameTemp => exact h.elim
    | append f fd r => exact Disk.Opened.keep h hd
    | write f fd pos r => exact Disk.Opened.keep h hd
    | _ => trivial
  back := by
    intro β γ e o d d₁ d₂ r a he ho hexec hexec'
    have hsame := Syscall.movable_light he ho
    rw [hexec, Option.bind_some, hexec', Option.map_some] at hsame
    obtain ⟨⟨a', d₃⟩, hfirst, hrest⟩ := Option.bind_eq_some_iff.mp hsame.symm
    obtain ⟨⟨r', d₄⟩, hsecond, heq⟩ := Option.map_eq_some_iff.mp hrest
    cases heq
    exact ⟨d₃, hfirst, hsecond⟩
  forth := by
    intro β γ e o d d₁ d₂ r a he ho hexec hexec'
    have hsame := Syscall.movable_light he ho
    rw [hexec, Option.bind_some, hexec', Option.map_some] at hsame
    obtain ⟨⟨r', d₃⟩, hfirst, hrest⟩ := Option.bind_eq_some_iff.mp hsame
    obtain ⟨⟨a', d₄⟩, hsecond, heq⟩ := Option.map_eq_some_iff.mp hrest
    cases heq
    exact ⟨d₃, hfirst, hsecond⟩

/-! ## The calls of the operations -/

/-- The program has at most one call in each section that does not commute, and ends there. -/
abbrev Sectional (finish stage : Stage) (p : FileOp α) (d : Disk) : Prop :=
  p.Goes fileGuard (fun _ _ => True) finish stage d

section Rules

variable {d : Disk} {finish stage mid : Stage} {f : FileName}

theorem sectional_pure (a : α) : Sectional stage stage (pure a : FileOp α) d :=
  goes_ret fun _ _ => trivial

theorem Sectional.bind {p : FileOp α} {g : α → FileOp β} (hp : Sectional mid stage p d)
    (hg : ∀ a d', d.Keeps d' → Sectional finish mid (g a) d') :
    Sectional finish stage (p >>= g) d :=
  Goes.bind hp fun a d' hd _ => hg a d' hd

theorem sectional_call {e : Syscall β} (h : Passes fileGuard e d stage mid) :
    Sectional mid stage (perform e) d :=
  ⟨mid, h, fun _ _ _ _ _ => sectional_pure _⟩

/-- A call inside a section that commutes. -/
theorem sectional_move {e : Syscall β} (hstage : stage ≠ .outside) (hwait : e.isWait = false)
    (hpost : e.isPost = false) (h : e.movable d) : Sectional stage stage (perform e) d :=
  sectional_call (.move hstage hwait hpost h)

theorem sectional_release (hstage : stage ≠ .outside) (code : α) :
    Sectional .outside stage (release code) d := by
  have hleave : Passes fileGuard Syscall.semPost d stage .outside := .leave hstage rfl rfl trivial
  exact (sectional_call hleave).bind fun _ _ _ => sectional_pure code

theorem sectional_access (hstage : stage ≠ .outside) (x : Option α) :
    Sectional stage stage (access x) d := by
  cases x with
  | none => exact sectional_move hstage rfl rfl trivial
  | some a => exact sectional_pure a

/-- Whoever has the descriptor of a file has opened it. -/
theorem opened_of_exec {create : Bool} {fd : Nat} {d' : Disk}
    (h : Disk.exec (.openFile f create) d = some (some fd, d')) : d'.Opened f fd := by
  have hanswer : ((d.file f).openFile create).1 = some fd :=
    congrArg Prod.fst (Option.some.inj h)
  have hdisk : d.opening f create = d' := congrArg Prod.snd (Option.some.inj h)
  rw [← hdisk, Disk.Opened, Disk.opening, Disk.file_setFile]
  exact NamedFile.lt_length _ fd (NamedFile.named_of_openFile hanswer)

/-- A file is opened, outside of sections or inside one. -/
theorem sectional_openFile {create : Bool} {next : Option Nat → FileOp β}
    (h : Passes fileGuard (Syscall.openFile f create) d stage mid)
    (hnext : ∀ r d', d.Keeps d' → (∀ fd, r = some fd → d'.Opened f fd) →
      Sectional finish mid (next r) d') :
    Sectional finish stage (perform (.openFile f create) >>= next) d := by
  refine ⟨mid, h, fun d₁ r d₂ hd hexec => ?_⟩
  have hopen : Disk.exec (.openFile f create) d₁ = some (r, d₂) := hexec
  refine hnext r d₂ (fun g => Nat.le_trans (hd g) (Disk.keeps_exec hopen g)) fun fd hfd => ?_
  subst hfd
  exact opened_of_exec hopen

theorem sectional_withFile {create : Bool} {code : α} {body : Nat → FileOp α}
    (hbody : ∀ fd d', d'.Opened f fd → Sectional .outside .outside (body fd) d') :
    Sectional .outside .outside (withFile f create code body) d := by
  refine sectional_openFile (.free rfl rfl trivial) fun r d' _ hopened => ?_
  cases r with
  | none => exact sectional_pure code
  | some fd => exact hbody fd d' (hopened fd rfl)

/-- A section begins. -/
theorem sectional_wait {body : FileOp α}
    (hbody : ∀ d', d.Keeps d' → Sectional .outside .before body d') :
    Sectional .outside .outside (perform .semWait >>= fun _ => body) d := by
  have henter : Passes fileGuard Syscall.semWait d .outside .before := .enter rfl rfl trivial
  exact (sectional_call henter).bind fun _ d' hd => hbody d' hd

/-- Records are read inside a section. -/
theorem sectional_read (hstage : stage ≠ .outside) (f : FileName) (fd : Nat) :
    Sectional stage stage (perform (.read f fd)) d :=
  sectional_move hstage rfl rfl trivial

/-- A record is written inside a section, to a file that has been opened. -/
theorem sectional_append (hstage : stage ≠ .outside) {fd : Nat} (hfd : d.Opened f fd)
    (r : f.Record) : Sectional stage stage (perform (.append f fd r)) d :=
  sectional_move hstage rfl rfl hfd

theorem sectional_write (hstage : stage ≠ .outside) {fd : Nat} (hfd : d.Opened f fd) (pos : Nat)
    (r : f.Record) : Sectional stage stage (perform (.write f fd pos r)) d :=
  sectional_move hstage rfl rfl hfd

/-- A section of one file. -/
theorem sectional_section {create : Bool} {code : α} {body : Nat → FileOp α}
    (hbody : ∀ fd d', d'.Opened f fd → Sectional .outside .before (body fd) d') :
    Sectional .outside .outside (withFile f create code fun fd => do
      perform .semWait
      body fd) d :=
  sectional_withFile fun fd _ hfd => sectional_wait fun d'' hd => hbody fd d'' (hfd.keep hd)

end Rules

section Operations

variable {d : Disk} {finish stage : Stage}

/-! ### The operations that change files -/

theorem sectional_appendRecord (f : FileName) (r : f.Record) :
    Sectional .outside .outside (appendRecord f r) d :=
  sectional_section fun _ _ hfd => (sectional_append before_ne hfd r).bind fun _ _ _ =>
    sectional_release before_ne 0

theorem sectional_addCourse (id name facultyId : CString) (seats : Int) :
    Sectional .outside .outside (addCourse id name facultyId seats) d := by
  refine sectional_section fun fd d₁ hfd => (sectional_read before_ne _ _).bind
    fun records d₂ hd₂ => (sectional_access before_ne _).bind fun found d₃ hd₃ => ?_
  split
  · exact sectional_release before_ne (-1)
  · exact (sectional_append before_ne ((hfd.keep hd₂).keep hd₃) _).bind fun _ _ _ =>
      sectional_release before_ne 0

theorem sectional_overwriteSection (f : FileName) (found : f.Record → Option Bool)
    (edit : f.Record → Option f.Record) (fd : Nat) (hfd : d.Opened f fd) :
    Sectional .outside .outside (overwriteSection f found edit fd) d := by
  refine sectional_wait fun d₁ hd₁ => (sectional_read before_ne _ _).bind fun records d₂ hd₂ =>
    (sectional_access before_ne _).bind fun first d₃ hd₃ => ?_
  split
  · exact sectional_release before_ne (-1)
  · next pos r =>
    refine (sectional_access before_ne (edit r)).bind fun r' d₄ hd₄ => ?_
    have hfd₄ := (((hfd.keep hd₁).keep hd₂).keep hd₃).keep hd₄
    exact (sectional_write before_ne hfd₄ pos r').bind fun _ _ _ => sectional_release before_ne 0

theorem sectional_overwriteFirst (f : FileName) (found : f.Record → Option Bool)
    (edit : f.Record → Option f.Record) :
    Sectional .outside .outside (overwriteFirst f found edit) d :=
  sectional_withFile fun fd _ hfd => sectional_overwriteSection f found edit fd hfd

theorem sectional_copyOthers (hstage : stage ≠ .outside) (id : CString) (records : List Course) :
    Sectional stage stage (copyOthers id records) d := by
  induction records generalizing d with
  | nil => exact sectional_pure ()
  | cons course rest ih =>
    rw [copyOthers]
    refine (sectional_access hstage _).bind fun same d₁ _ => ?_
    split
    · exact ih
    · have hcopy : Sectional stage stage (perform (.writeTemp course)) d₁ :=
        sectional_move hstage rfl rfl trivial
      exact hcopy.bind fun _ _ _ => ih

theorem sectional_sweep (hstage : stage ≠ .outside) (sfd : Nat) (id : CString) (spos : Nat)
    (records : List Student) (hfd : d.Opened .students sfd) :
    Sectional stage stage (sweep sfd id spos records) d := by
  induction records generalizing spos d with
  | nil => exact sectional_pure ()
  | cons student rest ih =>
    rw [sweep]
    refine (sectional_access hstage _).bind fun found d₁ hd₁ => ?_
    have hfd₁ := hfd.keep hd₁
    split
    · exact (sectional_write hstage hfd₁ spos _).bind fun _ _ hd => ih (spos + 1) (hfd₁.keep hd)
    · exact ih (spos + 1) hfd₁

/-- The name `courses.dat` is given to the copy after everything else. -/
theorem sectional_removeSection (id : CString) (fd : Nat) :
    Sectional .outside .outside (removeSection id fd) d := by
  refine sectional_wait fun _ _ => (sectional_read before_ne _ _).bind fun records _ _ =>
    (sectional_access before_ne _).bind fun found _ _ => ?_
  split
  · have htemp : ∀ d, Sectional .before .before (perform .openTemp) d := fun d =>
      sectional_move before_ne rfl rfl trivial
    refine (htemp _).bind fun opened _ _ => ?_
    split
    · refine (sectional_copyOthers before_ne id records).bind fun _ _ _ => ?_
      exact (sectional_call (.commit rfl rfl)).bind fun _ _ _ => sectional_release after_ne _
    · exact sectional_release before_ne _
  · exact sectional_release before_ne _

theorem sectional_removeFromStudents (id : CString) (found : Option Bool) :
    Sectional .outside .outside (removeFromStudents id found) d := by
  cases found with
  | none => exact sectional_pure _
  | some found =>
    have hsweep : Sectional .outside .outside
        (withFile .students false () (sweepSection id)) d :=
      sectional_section fun sfd _ hfd => (sectional_read before_ne _ _).bind
        fun records _ hd => (sectional_sweep before_ne sfd id 0 records (hfd.keep hd)).bind
          fun _ _ _ => sectional_release before_ne ()
    exact hsweep.bind fun _ _ _ => sectional_pure _

theorem sectional_removeCourse (id : CString) :
    Sectional .outside .outside (removeCourse id) d :=
  sectional_withFile fun fd _ _ => (sectional_removeSection id fd).bind fun found _ _ =>
    sectional_removeFromStudents id found

/-- `courses.dat` is opened before anything else that depends on it. -/
theorem sectional_enrollInCourse (studentId courseId : CString) {sfd : Nat} (spos : Nat)
    (student : Student) (emptySlot : Nat) (hsfd : d.Opened .students sfd) :
    Sectional .outside .before (enrollInCourse studentId courseId sfd spos student emptySlot)
      d := by
  refine sectional_openFile (.commit rfl rfl) fun cfd d₂ hd₂ hopened => ?_
  have hsfd₂ := hsfd.keep hd₂
  cases cfd with
  | none => exact sectional_release after_ne (-1)
  | some cfd =>
    have hcfd := hopened cfd rfl
    refine (sectional_read after_ne _ _).bind fun records d₃ hd₃ =>
      (sectional_access after_ne _).bind fun found d₄ hd₄ => ?_
    split
    · exact sectional_release after_ne _
    · split
      · exact sectional_release after_ne _
      · refine (sectional_access after_ne _).bind fun entry d₅ hd₅ => ?_
        cases entry with
        | some _ => exact sectional_release after_ne _
        | none =>
          refine (sectional_access after_ne _).bind fun slots d₆ hd₆ => ?_
          have hsfd₆ := (((hsfd₂.keep hd₃).keep hd₄).keep hd₅).keep hd₆
          refine (sectional_write after_ne hsfd₆ spos _).bind fun _ d₇ hd₇ => ?_
          refine (sectional_access after_ne _).bind fun roster d₈ hd₈ => ?_
          have hcfd₈ := (((((hcfd.keep hd₃).keep hd₄).keep hd₅).keep hd₆).keep hd₇).keep hd₈
          exact (sectional_write after_ne hcfd₈ _ _).bind fun _ _ _ =>
            sectional_release after_ne 0

theorem sectional_enrollCourse (studentId courseId : CString) :
    Sectional .outside .outside (enrollCourse studentId courseId) d := by
  refine sectional_section fun sfd d₁ hsfd => (sectional_read before_ne _ _).bind
    fun records d₂ hd₂ => (sectional_access before_ne _).bind fun found d₃ hd₃ => ?_
  split
  · exact sectional_release before_ne _
  · split
    · exact sectional_release before_ne _
    · refine (sectional_access before_ne _).bind fun scanned d₄ hd₄ => ?_
      have hsfd₄ := ((hsfd.keep hd₂).keep hd₃).keep hd₄
      split
      · exact sectional_release before_ne _
      · exact sectional_release before_ne _
      · exact sectional_enrollInCourse _ _ _ _ _ hsfd₄

theorem sectional_unenrollRoster {fd : Nat} (studentId courseId : CString)
    (hfd : d.Opened .courses fd) :
    Sectional .outside .outside (unenrollRoster fd studentId courseId) d := by
  refine sectional_wait fun d₁ hd₁ => (sectional_read before_ne _ _).bind fun records d₂ hd₂ =>
    (sectional_access before_ne _).bind fun found d₃ hd₃ => ?_
  split
  · exact sectional_release before_ne _
  · refine (sectional_access before_ne _).bind fun entry d₄ hd₄ => ?_
    cases entry with
    | none => exact sectional_release before_ne _
    | some i =>
      refine (sectional_access before_ne _).bind fun roster d₅ hd₅ => ?_
      have hfd₅ := ((((hfd.keep hd₁).keep hd₂).keep hd₃).keep hd₄).keep hd₅
      exact (sectional_write before_ne hfd₅ _ _).bind fun _ _ _ => sectional_release before_ne _

theorem sectional_unenrollRecord (studentId courseId : CString) :
    Sectional .outside .outside (unenrollRecord studentId courseId) d := by
  refine sectional_section fun fd d₁ hfd => (sectional_read before_ne _ _).bind
    fun records d₂ hd₂ => (sectional_access before_ne _).bind fun found d₃ hd₃ => ?_
  split
  · exact sectional_release before_ne _
  · refine (sectional_access before_ne _).bind fun slot d₄ hd₄ => ?_
    split
    · exact sectional_release before_ne _
    · refine (sectional_access before_ne _).bind fun slots d₅ hd₅ => ?_
      have hfd₅ := (((hfd.keep hd₂).keep hd₃).keep hd₄).keep hd₅
      exact (sectional_write before_ne hfd₅ _ _).bind fun _ _ _ =>
        sectional_release before_ne _

theorem sectional_unenrollCourse (studentId courseId : CString) :
    Sectional .outside .outside (unenrollCourse studentId courseId) d :=
  sectional_withFile fun _ _ hfd => (sectional_unenrollRoster studentId courseId hfd).bind
    fun _ _ _ => sectional_unenrollRecord studentId courseId

/-! ### The listings and the authentication -/

theorem sectional_appendText (hstage : stage ≠ .outside) (bufferSize : Nat)
    (result info : CString) : Sectional stage stage (appendText bufferSize result info) d := by
  have hrealloc : ∀ d, Sectional stage stage (perform .realloc) d := fun d =>
    sectional_move hstage rfl rfl trivial
  rw [appendText]
  split
  · refine (hrealloc d).bind fun grown _ _ => ?_
    split <;> exact sectional_pure _
  · exact sectional_pure _

theorem sectional_appendLines (hstage : stage ≠ .outside) {ρ : Type} (fmt : Format ρ)
    (records : List ρ) (bufferSize : Nat) (result : CString) (count : Nat) :
    Sectional stage stage (appendLines fmt records bufferSize result count) d := by
  induction records generalizing bufferSize result count d with
  | nil => exact sectional_pure _
  | cons r rest ih =>
    rw [appendLines]
    refine (sectional_access hstage _).bind fun found _ _ => ?_
    split
    · refine (sectional_access hstage _).bind fun line _ _ =>
        (sectional_appendText hstage _ _ _).bind fun out _ _ => ?_
      split
      · exact sectional_pure _
      · exact ih _ _ _
    · exact ih _ _ _

theorem sectional_appendNone (hstage : stage ≠ .outside) (noneText : CString) (bufferSize : Nat)
    (result : CString) (count : Nat) :
    Sectional stage stage (appendNone noneText bufferSize result count) d := by
  rw [appendNone]
  split
  · exact sectional_appendText hstage _ _ _
  · exact sectional_pure _

theorem sectional_finishText (hstage : stage ≠ .outside) (out : Option (Nat × CString)) :
    Sectional .outside stage (finishText out) d := by
  cases out with
  | none => exact sectional_release hstage _
  | some out => exact sectional_release hstage _

/-- A listing after its wait: `NULL` without memory, else the text. -/
theorem sectional_malloc {body : FileOp (Option CString)}
    (hbody : ∀ d', d.Keeps d' → Sectional .outside .before body d') :
    Sectional .outside .before (do if ← perform .malloc then body else release none) d := by
  have hmalloc : Sectional .before .before (perform .malloc) d :=
    sectional_move before_ne rfl rfl trivial
  refine hmalloc.bind fun allocated d' hd => ?_
  split
  · exact hbody d' hd
  · exact sectional_release before_ne _

theorem sectional_listing (f : FileName) (fmt : Format f.Record) :
    Sectional .outside .outside (listing f fmt) d := by
  refine sectional_section fun fd _ _ => sectional_malloc fun _ _ => ?_
  refine (sectional_read before_ne _ _).bind fun records _ _ =>
    (sectional_appendLines before_ne fmt _ _ _ _).bind fun out _ _ => ?_
  split
  · exact sectional_release before_ne _
  · exact (sectional_appendNone before_ne _ _ _ _).bind fun out _ _ =>
      sectional_finishText before_ne out

theorem sectional_slotLines (hstage : stage ≠ .outside) (student : Student) :
    Sectional stage stage (slotLines student) d := by
  refine (sectional_appendLines hstage _ _ _ _ _).bind fun out _ _ => ?_
  split
  · exact sectional_pure _
  · exact sectional_appendNone hstage _ _ _ _

theorem sectional_rosterLines (hstage : stage ≠ .outside) (fmt : Format Id)
    (roster : CArray Id maxUsers) (i : Int) (k bufferSize : Nat) (result : CString) (count : Nat) :
    Sectional stage stage (rosterLines fmt roster i k bufferSize result count) d := by
  induction k generalizing i bufferSize result count d with
  | zero => exact sectional_pure _
  | succ k ih =>
    refine (sectional_access hstage _).bind fun entry _ _ =>
      (sectional_access hstage _).bind fun line _ _ =>
        (sectional_appendText hstage _ _ _).bind fun out _ _ => ?_
    split
    · exact sectional_pure _
    · exact ih _ _ _ _

theorem sectional_enrollmentLines (hstage : stage ≠ .outside) (fmt : Format Id)
    (course : Course) : Sectional stage stage (enrollmentLines fmt course) d := by
  refine (sectional_rosterLines hstage _ _ _ _ _ _ _).bind fun out _ _ => ?_
  split
  · exact sectional_pure _
  · exact sectional_appendNone hstage _ _ _ _

theorem sectional_viewEnrolledCourses (studentId : CString) :
    Sectional .outside .outside (viewEnrolledCourses studentId) d := by
  refine sectional_section fun fd _ _ => sectional_malloc fun _ _ => ?_
  refine (sectional_read before_ne _ _).bind fun records _ _ =>
    (sectional_access before_ne _).bind fun found _ _ => ?_
  split
  · exact (sectional_slotLines before_ne _).bind fun out _ _ =>
      sectional_finishText before_ne out
  · exact (sectional_appendText before_ne _ _ _).bind fun out _ _ =>
      sectional_finishText before_ne out

theorem sectional_viewCourseEnrollments (courseId : CString) :
    Sectional .outside .outside (viewCourseEnrollments courseId) d := by
  refine sectional_section fun fd _ _ => sectional_malloc fun _ _ => ?_
  refine (sectional_read before_ne _ _).bind fun records _ _ =>
    (sectional_access before_ne _).bind fun found _ _ => ?_
  split
  · exact (sectional_enrollmentLines before_ne _ _).bind fun out _ _ =>
      sectional_finishText before_ne out
  · exact (sectional_appendText before_ne _ _ _).bind fun out _ _ =>
      sectional_finishText before_ne out

theorem sectional_authenticate (userId password : CString) (expectedRole : Role) :
    Sectional .outside .outside (authenticate userId password expectedRole) d :=
  sectional_section fun _ _ _ => (sectional_read before_ne _ _).bind fun _ _ _ =>
    (sectional_access before_ne _).bind fun _ _ _ => sectional_release before_ne _

/-! ### All operations -/

theorem Sectional.map {p : FileOp α} (hp : Sectional .outside .outside p d) (g : α → β) :
    Sectional .outside .outside (g <$> p) d :=
  Goes.bind hp fun a _ _ _ => sectional_pure (g a)

/-- What sessions call: not `initial_setup`, which the server runs before any of them. -/
def Operation.OfSession (op : Operation) : Prop := op ≠ .initialSetup

theorem Operation.sectional {op : Operation} (hop : op.OfSession) (d : Disk) :
    Sectional .outside .outside op.program d := by
  cases op with
  | addUser | addStudent | addFaculty => exact (sectional_appendRecord _ _).map _
  | activateDeactivateStudent | updateStudent | updateFaculty | changePassword | updateCourse =>
    exact (sectional_overwriteFirst _ _ _).map _
  | addCourse => exact (sectional_addCourse _ _ _ _).map _
  | removeCourse => exact (sectional_removeCourse _).map _
  | enrollCourse => exact (sectional_enrollCourse _ _).map _
  | unenrollCourse => exact (sectional_unenrollCourse _ _).map _
  | viewEnrolledCourses => exact (sectional_viewEnrolledCourses _).map _
  | viewCourseEnrollments => exact (sectional_viewCourseEnrollments _).map _
  | viewAllCourses | viewFacultyCourses | viewAllStudents | viewAllFaculty =>
    exact (sectional_listing _ _).map _
  | initialSetup => exact absurd rfl hop
  | authenticate => exact (sectional_authenticate _ _ _).map _

end Operations

/-! ## Sessions -/

/-- A session performs its operations one after another, and sends the answers. -/
def answering (ops : List Operation) : FileOp (List Answer) := script Operation.program ops

theorem sectional_answering {ops : List Operation} (h : ∀ op ∈ ops, op.OfSession) (d : Disk) :
    Sectional .outside .outside (answering ops) d :=
  goes_script (fun op hop d => op.sectional (h op hop) d) d

/-- Sessions with the files and `file_sem`. -/
abbrev CallServer (ι : Type) := Guarded Syscall (List Answer) ι Disk

/-- The sessions after `sem_init(&file_sem, 0, 1)`. -/
def CallServer.start {ι : Type} (d : Disk) (ops : ι → List Operation) : CallServer ι :=
  ⟨d, fun t => answering (ops t), 1⟩

/-- The sessions with each section as one step. -/
abbrev SectionServer (ι : Type) := Sectioned Syscall (List Answer) ι Disk

def SectionServer.start {ι : Type} (d : Disk) (ops : ι → List Operation) : SectionServer ι :=
  ⟨d, fun t => answering (ops t)⟩

section Sessions

variable [DecidableEq ι]

/-- The next system call of a session; `sem_wait` needs a positive value. -/
def CallServer.step (x : CallServer ι) (t : ι) : Option (CallServer ι) := Guarded.step fileGuard x t

def SectionServer.step (x : SectionServer ι) (t : ι) : Option (SectionServer ι) :=
  Sectioned.step Disk.exec Syscall.isWait Syscall.isPost x t

variable {d : Disk} {ops : ι → List Operation} {history : List (Event (CallServer ι) ι)}
  {x : CallServer ι}

/-- The sessions that have taken `file_sem` in a run, latest first. -/
def CallServer.entered (history : List (Event (CallServer ι) ι)) : List ι :=
  Resumption.entered fileGuard Guarded.rest history

/-- The sessions that have done a section, latest first. -/
def SectionServer.entered (history : List (Event (SectionServer ι) ι)) : List ι :=
  Resumption.entered fileGuard Sectioned.rest history

/-- However the system calls of the sessions follow each other, where the loop that reads through a
file counts as one call, whenever `file_sem` is free, in particular when all sessions have returned,
the files are in a state, and the sessions at a place, that they also reach with each section as one
step, in the order in which the sessions have taken `file_sem`. -/
theorem sections_atomic (hops : ∀ t, ∀ op ∈ ops t, op.OfSession)
    (hr : Run CallServer.step (.start d ops) history x) :
    (x.value = 1 → ∃ history', Run SectionServer.step (.start d ops) history' ⟨x.state, x.rest⟩ ∧
      SectionServer.entered history' = CallServer.entered history) ∧
      ((∀ t, ∃ answers, x.rest t = .ret answers) → x.value = 1) := by
  have hgoes : ∀ t, Sectional .outside .outside (answering (ops t)) d := fun t =>
    sectional_answering (hops t) d
  exact ⟨sectioned_of_run hgoes hr, (stands_of_run hgoes hr).value_of_returned⟩

/-- Two sessions that add a student each. -/
def twoAdds (first : Bool) : List Operation :=
  if first then [.addStudent (.ofString "s1") (.ofString "John")]
  else [.addStudent (.ofString "s2") (.ofString "Ann")]

/-- The second session opens `students.dat` while the first one is inside its section. -/
theorem sections_atomic_twoAdds : ∃ history x,
    Run CallServer.step (.start .empty twoAdds) history x ∧ x.value = 1 ∧
    ∃ history', Run SectionServer.step (.start .empty twoAdds) history' ⟨x.state, x.rest⟩ ∧
      SectionServer.entered history' = CallServer.entered history := by
  have hops : ∀ t, ∀ op ∈ twoAdds t, op.OfSession := by
    rintro t op hop
    cases t <;> cases List.mem_singleton.mp hop <;> exact nofun
  have hrun : Run CallServer.step (.start .empty twoAdds) [] (.start .empty twoAdds) := .start
  have hrun := (hrun.snoc (l := true) rfl).snoc (l := true) rfl
  have hrun := (hrun.snoc (l := false) rfl).snoc (l := true) rfl
  have hrun := (hrun.snoc (l := true) rfl).snoc (l := false) rfl
  have hrun := (hrun.snoc (l := false) rfl).snoc (l := false) rfl
  exact ⟨_, _, hrun, rfl, (sections_atomic hops hrun).1 rfl⟩

/-- A call without a result is an access outside an array. -/
theorem stray_of_exec {e : Syscall β} (h : Disk.exec e d = none) : e = .stray β := by
  cases e with
  | stray => rfl
  | renameTemp =>
    cases ht : d.temp with
    | none => simp only [Disk.exec, ht] at h; cases h
    | some records => simp only [Disk.exec, ht] at h; cases h
  | _ => cases h

/-- The sessions do not block each other at `file_sem`: from wherever they are, and however
their system calls, with the loop that reads through a file as one of them, follow each other, all
sessions return, unless one of them accesses an array out of its bounds. -/
theorem sessions_return [Finite ι] (hops : ∀ t, ∀ op ∈ ops t, op.OfSession)
    (hr : Run CallServer.step (.start d ops) history x) :
    Inevitable (fun x x' => ∃ t, CallServer.step x t = some x')
      (fun x => (∀ t, ∃ answers, x.rest t = .ret answers) ∨
        ∃ t β next, x.rest t = .call (.stray β) next) x := by
  have hgoes : ∀ t, Sectional .outside .outside (answering (ops t)) d := fun t =>
    sectional_answering (hops t) d
  refine (returned_inevitable hgoes hr).mono fun x hx => hx.imp_right ?_
  rintro ⟨t, β, e, next, hrest, hexec⟩
  rw [stray_of_exec hexec] at hrest
  exact ⟨t, β, next, hrest⟩

/-- The second session waits for `file_sem` while the first one is inside its section. -/
theorem sessions_return_twoAdds : ∃ history x,
    Run CallServer.step (.start .empty twoAdds) history x ∧ CallServer.step x false = none ∧
    Inevitable (fun x x' => ∃ t, CallServer.step x t = some x')
      (fun x => (∀ t, ∃ answers, x.rest t = .ret answers) ∨
        ∃ t β next, x.rest t = .call (.stray β) next) x := by
  have hops : ∀ t, ∀ op ∈ twoAdds t, op.OfSession := by
    rintro t op hop
    cases t <;> cases List.mem_singleton.mp hop <;> exact nofun
  have hrun : Run CallServer.step (.start .empty twoAdds) [] (.start .empty twoAdds) := .start
  have hrun := (hrun.snoc (l := true) rfl).snoc (l := true) rfl
  have hrun := hrun.snoc (l := false) rfl
  exact ⟨_, _, hrun, rfl, sessions_return hops hrun⟩

end Sessions

end AcademiaCr.Academia
