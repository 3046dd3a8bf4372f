import AcademiaCr.Academia.Interleaving

/-!
# Concurrent enrolments

`unenroll_course` gives `file_sem` back between its two files. Until it goes on, the student is
off the roster and still has the course in a slot. What another session does for the same pair
in the meantime decides whether the two files agree afterwards.

## Main definitions

- `MidwayAt`: a session is between the two sections of `unenroll_course`
- `agree_of_run`: without an enrolment of the same pair in between, the files agree
- `midway_enrolment_disagrees`: a schedule of three calls after which they do not
-/

namespace AcademiaCr.Academia

open CLang RecordFile Resumption Prog Transition

variable {ι : Type} [DecidableEq ι]

/-- The next step of the session takes `file_sem`. -/
def FileServer.AtSection (s : FileServer ι) (t : ι) : Prop :=
  ∃ next, s.rest t = .call .semWait next

/-- The session is between the two sections of `unenroll_course`. -/
structure MidwayAt (calls : ι → Call) (s : FileServer ι) (t : ι) (studentId courseId : CString) :
    Prop where
  call : calls t = .unenrollCourse studentId courseId
  sections : s.sections t = 1
  running : ∀ code, ¬ s.Returned t code

/-- A session is between the two sections of `unenroll_course` for the pair. -/
def Midway (calls : ι → Call) (s : FileServer ι) (studentId courseId : CString) : Prop :=
  ∃ t, MidwayAt calls s t studentId courseId

/-- The step enrols a student whom an `unenroll_course` has taken from the roster and not yet
from the record. -/
def Clashes (calls : ι → Call) (e : Event (FileServer ι) ι) : Prop :=
  e.before.AtSection e.label ∧ ∃ studentId courseId,
    calls e.label = .enrollCourse studentId courseId ∧ Midway calls e.before studentId courseId ∧
    ∃ student course, e.before.disk.tables.Accepts studentId courseId student course

variable {calls : ι → Call} {s s' : FileServer ι} {x : Serial ι} {t : ι}

/-! ## Sections on the contents -/

section Tables

variable {u u' : Tables} {studentId courseId : CString}

theorem Tables.accepts_of_enroll (hsound : u.Sound)
    (h : u.enroll studentId courseId = some (0, u')) :
    ∃ student course, u.Accepts studentId courseId student course := by
  unfold Tables.enroll at h
  split at h
  · cases h
  · next students hstudents =>
    obtain ⟨out, hout, heq⟩ := Option.map_eq_some_iff.mp h
    cases enrolls_of_eq hout with
    | refused hcode => exact absurd (congrArg Prod.fst heq) hcode
    | enrolled hlocate hactive hholds hempty _ hrecords hcourse hlt hsearch =>
      have hcourses := hsound.courses
      rw [Tables.courseRecords, hrecords, Option.getD_some] at hcourses
      obtain ⟨hi, hslot, -⟩ := List.findIdx?_eq_some_iff_getElem.mp hempty
      refine ⟨_, _, ?_, hactive, hholds, ⟨_, List.getElem_mem hi, by simpa using hslot⟩, ?_, hlt,
        notMem_roster (hcourses.all _ (mem_of_locate hcourse).1).inRange hsearch⟩
      · rw [Tables.studentRecords, hstudents, Option.getD_some, find?_of_locate hlocate]
      · rw [Tables.courseRecords, hrecords, Option.getD_some, find?_of_locate hcourse]

theorem Tables.Sound.enroll {code : Int} (h : u.Sound)
    (henroll : u.enroll studentId courseId = some (code, u')) : u'.Sound := by
  unfold Tables.enroll at henroll
  split at henroll
  · cases henroll
    exact h
  · next students hstudents =>
    obtain ⟨out, hout, heq⟩ := Option.map_eq_some_iff.mp henroll
    cases heq
    have hslots := h.slots
    rw [Tables.studentRecords, hstudents, Option.getD_some] at hslots
    exact ⟨h.courses.enrollIn sound_keptByEdits hout, hslots.enrollIn hout⟩

/-- Clearing an empty slot is not seen. -/
theorem listsIn_unenrollIn_empty {records : List Student} {out : Int × List Student}
    (h : unenrollIn studentId .empty records = some out) {s c : CString} (hc : c ≠ .empty) :
    listsIn out.2 s c = listsIn records s c := by
  cases unlists_of_eq h with
  | missing | absent => rfl
  | @removed pos i student slots hlocate hfind hslots =>
    rw [listsIn_set (r := { student with enrolledCourses := slots }) hlocate rfl]
    by_cases hs : s = studentId
    · rw [if_pos hs, hs, listsIn_of_locate hlocate, Bool.eq_iff_iff, ← mem_listed hc,
        ← mem_listed hc, (listed_unenroll_empty hslots hfind).mem_iff]
    · rw [if_neg hs]

end Tables

/-! ## The steps -/

/-- A step of one session leaves the others where they are. -/
theorem FileServer.step_others (hs : s.step t = some s') {u : ι} (hu : u ≠ t) :
    s'.rest u = s.rest u ∧ s'.sections u = s.sections u := by
  unfold FileServer.step at hs
  split at hs
  · cases hs
  · split at hs
    · obtain ⟨out, -, rfl⟩ := Option.map_eq_some_iff.mp hs
      exact ⟨Function.update_of_ne hu .., Function.update_of_ne hu ..⟩
    · obtain ⟨out, -, rfl⟩ := Option.map_eq_some_iff.mp hs
      exact ⟨Function.update_of_ne hu .., rfl⟩

/-- What a step can be when the sessions enrol and unenrol. -/
inductive Enrolment (calls : ι → Call) (s : FileServer ι) (t : ι) (s' : FileServer ι) : Prop
  | quiet : s'.disk.tables = s.disk.tables →
      (∀ studentId courseId, MidwayAt calls s' t studentId courseId ↔
        MidwayAt calls s t studentId courseId) → Enrolment calls s t s'
  | missing : s'.disk.tables = s.disk.tables → s.disk.tables.students = none →
      s'.Returned t (-1) → Enrolment calls s t s'
  | enrolled {studentId courseId : CString} {code : Int} :
      calls t = .enrollCourse studentId courseId → s.AtSection t →
      s.disk.tables.enroll studentId courseId = some (code, s'.disk.tables) →
      Enrolment calls s t s'
  | unrostered {studentId courseId : CString} {records records' : List Course} :
      s.disk.tables.courses = some records →
      unenrollFrom studentId courseId records = some records' →
      s'.disk.tables = { s.disk.tables with courses := some records' } →
      MidwayAt calls s' t studentId courseId → Enrolment calls s t s'
  | unlisted {studentId courseId : CString} {records : List Student} {out : Int × List Student} :
      MidwayAt calls s t studentId courseId → s.disk.tables.students = some records →
      unenrollIn studentId courseId records = some out →
      s'.disk.tables = { s.disk.tables with students := some out.2 } →
      s'.Returned t out.1 → Enrolment calls s t s'

/-- A session opens an existing file, or fails. -/
theorem FileServer.step_openExisting {f : FileName} {p : Nat → FileOp Int}
    (hrest : s.rest t = withFile f false (-1) p) (hs : s.step t = some s') :
    s'.disk = s.disk ∧ s'.sections t = s.sections t ∧
      ((∃ fd, s'.rest t = p fd) ∨ ((s.disk.file f).named = none ∧ s'.Returned t (-1))) := by
  rw [step_open hrest] at hs
  cases hs
  cases hn : (s.disk.file f).named with
  | none =>
    simp only [NamedFile.openFile_of_missing hn, Disk.setFile_file, Function.update_self]
    exact ⟨trivial, trivial, .inr ⟨trivial, Function.update_self ..⟩⟩
  | some fd =>
    simp only [NamedFile.openFile_of_named false hn, Disk.setFile_file, Function.update_self]
    exact ⟨trivial, trivial, .inl ⟨fd, rfl⟩⟩

/-- A session does a section. -/
theorem FileServer.step_runSection {p : FileOp Int} {γ : Type} {out : Option γ}
    {rest : γ → FileOp Int} {disk : γ → Disk} (hrest : s.rest t = p)
    (hat : ∃ next, p = .call .semWait next)
    (hrun : s.disk.runSection p = out.map fun o => (rest o, disk o))
    (hs : s.step t = some s') :
    ∃ o, out = some o ∧ s'.disk = disk o ∧ s'.rest t = rest o ∧
      s'.sections t = s.sections t + 1 := by
  obtain ⟨next, hnext⟩ := hat
  rw [step_section (hrest.trans hnext), hrest, hrun, Option.map_map] at hs
  obtain ⟨o, ho, rfl⟩ := Option.map_eq_some_iff.mp hs
  exact ⟨o, ho, rfl, Function.update_self .., Function.update_self ..⟩

/-- A step of `enroll_course`. -/
theorem Simulates.enrolment_enroll (h : Simulates calls s x) (hs : s.step t = some s')
    {studentId courseId : CString} (hcall : calls t = .enrollCourse studentId courseId) :
    Enrolment calls s t s' := by
  have hplace := h.place t
  have hnever : ∀ (r : FileServer ι) s c, ¬ MidwayAt calls r t s c := fun _ _ _ hm => by
    rw [hm.call] at hcall
    cases hcall
  generalize hrest : s.rest t = rest, hsections : s.sections t = n, hopened : s.opened t = o,
    hcode : x.code t = v at hplace
  rw [hcall] at hplace
  cases hplace with
  | start =>
    obtain ⟨hdisk, -, -⟩ := FileServer.step_openExisting (f := .students)
      (p := enrollSection studentId courseId) hrest hs
    exact .quiet (by rw [hdisk]) fun s c => iff_of_false (hnever _ s c) (hnever _ s c)
  | openedStudents _ hfd =>
    obtain ⟨out, hout, hdisk, -⟩ := FileServer.step_runSection hrest ⟨_, rfl⟩
      (runSection_of_next fun next => Disk.runSection_enroll studentId courseId _ next) hs
    refine @Enrolment.enrolled _ _ _ _ _ _ _ out.1 hcall ⟨_, hrest⟩ ?_
    have hstudents : s.disk.tables.students = some _ := NamedFile.content_of_named hfd
    have hcourses : s.disk.tables.courses = s.disk.courses.content := rfl
    rw [hdisk, Disk.tables_enrolled hfd (enrollIn_isSome hout), Tables.enroll, hstudents, hcourses]
    dsimp only
    rw [hout, Option.map_some]
  | openedCourses hfile => cases hfile
  | done =>
    rw [FileServer.step, hrest] at hs
    cases hs

/-- A step of `unenroll_course`. -/
theorem Simulates.enrolment_unenroll (h : Simulates calls s x) (hs : s.step t = some s')
    (hno : ∀ t id, calls t ≠ .removeCourse id)
    {studentId courseId : CString} (hcall : calls t = .unenrollCourse studentId courseId) :
    Enrolment calls s t s' := by
  have hplace := h.place t
  generalize hrest : s.rest t = rest, hsections : s.sections t = n, hopened : s.opened t = o,
    hcode : x.code t = v at hplace
  rw [hcall] at hplace
  cases hplace with
  | start =>
    obtain ⟨hdisk, hsame, -⟩ := FileServer.step_openExisting (f := .courses) hrest hs
    rw [hsections] at hsame
    refine .quiet (by rw [hdisk]) fun s'' c => iff_of_false (fun hm => ?_) fun hm => ?_
    · exact absurd (hsame ▸ hm.sections) (by decide)
    · exact absurd (hsections ▸ hm.sections) (by decide)
  | openedStudents hfile => cases hfile
  | @openedCourses _ fd =>
    have hfd := h.opened hno t fd hopened
    obtain ⟨records', hfrom, hdisk, hrest', hnext⟩ := FileServer.step_runSection hrest ⟨_, rfl⟩
      (Disk.runSection_unenrollRoster studentId courseId fd _) hs
    rw [hsections] at hnext
    refine .unrostered (NamedFile.content_of_named hfd) hfrom ?_ ⟨hcall, hnext, ?_⟩
    · rw [hdisk, Disk.tables_setCourses hfd]
    · intro code hret
      cases hrest'.symm.trans hret
  | unrostered =>
    obtain ⟨hdisk, hsame, hopen⟩ := FileServer.step_openExisting (f := .students) hrest hs
    rw [hsections] at hsame
    obtain ⟨fd, hrest'⟩ | ⟨hmissing, hret⟩ := hopen
    · refine .quiet (by rw [hdisk]) fun s'' c => ⟨fun hm => ⟨hm.call, hsections, ?_⟩,
        fun hm => ⟨hm.call, hsame, ?_⟩⟩
      · intro code hret
        cases hrest.symm.trans hret
      · intro code hret
        cases hrest'.symm.trans hret
    · exact .missing (by rw [hdisk]) (NamedFile.content_eq_none.mpr hmissing) hret
  | @unlisting _ _ fd _ hfd =>
    obtain ⟨out, hout, hdisk, hrest', -⟩ := FileServer.step_runSection hrest ⟨_, rfl⟩
      (runSection_of_next fun next => Disk.runSection_unenroll studentId courseId fd next) hs
    refine .unlisted ⟨hcall, hsections, ?_⟩ (NamedFile.content_of_named hfd) hout ?_ hrest'
    · intro code hret
      cases hrest.symm.trans hret
    · rw [hdisk, Disk.tables_setStudents hfd]
  | done =>
    rw [FileServer.step, hrest] at hs
    cases hs

/-- Every step of enrolling and unenrolling sessions is one of these. -/
theorem Simulates.enrolment (h : Simulates calls s x) (hs : s.step t = some s')
    (hcalls : ∀ t, ∃ studentId courseId, calls t = .enrollCourse studentId courseId ∨
      calls t = .unenrollCourse studentId courseId) : Enrolment calls s t s' := by
  have hno : ∀ t id, calls t ≠ .removeCourse id := fun u id hcall => by
    obtain ⟨_, _, hu | hu⟩ := hcalls u <;> cases hcall.symm.trans hu
  obtain ⟨studentId, courseId, hcall | hcall⟩ := hcalls t
  · exact h.enrolment_enroll hs hcall
  · exact h.enrolment_unenroll hs hno hcall

/-! ## The invariant -/

/-- The files agree, but for the pairs for which a session is midway: these students are on no
roster. -/
structure AgreesButMidway (calls : ι → Call) (s : FileServer ι) : Prop where
  sound : s.disk.tables.Sound
  agree : ∀ studentId courseId, courseId ≠ .empty → ¬ Midway calls s studentId courseId →
    listsIn s.disk.tables.studentRecords studentId courseId =
      rostersIn s.disk.tables.courseRecords studentId courseId
  midway : ∀ studentId courseId, courseId ≠ .empty → Midway calls s studentId courseId →
    rostersIn s.disk.tables.courseRecords studentId courseId = false

theorem midway_iff (hs : s.step t = some s') {studentId courseId : CString} :
    Midway calls s' studentId courseId ↔ MidwayAt calls s' t studentId courseId ∨
      ∃ u ≠ t, MidwayAt calls s u studentId courseId := by
  have hothers : ∀ u ≠ t, MidwayAt calls s' u studentId courseId ↔
      MidwayAt calls s u studentId courseId := fun u hu => by
    obtain ⟨hrest, hsections⟩ := FileServer.step_others hs hu
    constructor
    · exact fun hm => ⟨hm.call, by rw [← hsections, hm.sections], fun code hret =>
        hm.running code (hrest.trans hret)⟩
    · exact fun hm => ⟨hm.call, by rw [hsections, hm.sections], fun code hret =>
        hm.running code (hrest.symm.trans hret)⟩
  constructor
  · rintro ⟨u, hu⟩
    by_cases hut : u = t
    · exact .inl (hut ▸ hu)
    · exact .inr ⟨u, hut, (hothers u hut).mp hu⟩
  · rintro (hm | ⟨u, hut, hu⟩)
    · exact ⟨t, hm⟩
    · exact ⟨u, (hothers u hut).mpr hu⟩

/-- A pair for which the session is midway neither before nor after its step. -/
theorem midway_iff_of_not (hs : s.step t = some s') {studentId courseId : CString}
    (hbefore : ¬ MidwayAt calls s t studentId courseId)
    (hafter : ¬ MidwayAt calls s' t studentId courseId) :
    Midway calls s' studentId courseId ↔ Midway calls s studentId courseId := by
  rw [midway_iff hs]
  constructor
  · rintro (hm | ⟨u, -, hu⟩)
    · exact absurd hm hafter
    · exact ⟨u, hu⟩
  · rintro ⟨u, hu⟩
    exact .inr ⟨u, fun hut => hbefore (hut ▸ hu), hu⟩

omit [DecidableEq ι] in
theorem AgreesButMidway.quiet (h : AgreesButMidway calls s)
    (htables : s'.disk.tables = s.disk.tables)
    (hmidway : ∀ studentId courseId, Midway calls s' studentId courseId ↔
      Midway calls s studentId courseId) : AgreesButMidway calls s' := by
  refine ⟨by rw [htables]; exact h.sound, fun a b hb hm => ?_, fun a b hb hm => ?_⟩
  · rw [htables]
    exact h.agree a b hb fun hm' => hm ((hmidway a b).mpr hm')
  · rw [htables]
    exact h.midway a b hb ((hmidway a b).mp hm)

theorem AgreesButMidway.missing (h : AgreesButMidway calls s) (hs : s.step t = some s')
    (htables : s'.disk.tables = s.disk.tables) (hmissing : s.disk.tables.students = none)
    (hret : s'.Returned t (-1)) : AgreesButMidway calls s' := by
  have hfalse : ∀ a b, listsIn s.disk.tables.studentRecords a b = false := fun a b => by
    rw [Tables.studentRecords, hmissing]
    rfl
  have hmono : ∀ a b, Midway calls s' a b → Midway calls s a b := fun a b hm => by
    obtain hm | ⟨u, -, hu⟩ := (midway_iff hs).mp hm
    · exact absurd hret (hm.running _)
    · exact ⟨u, hu⟩
  refine ⟨by rw [htables]; exact h.sound, fun a b hb hm => ?_, fun a b hb hm => ?_⟩
  · rw [htables]
    by_cases hold : Midway calls s a b
    · rw [hfalse, h.midway a b hb hold]
    · exact h.agree a b hb hold
  · rw [htables]
    exact h.midway a b hb (hmono a b hm)

/-- An enrolment that is accepted is for a pair for which nobody is midway. -/
theorem AgreesButMidway.enrolled (h : AgreesButMidway calls s) (hs : s.step t = some s')
    {studentId courseId : CString} {code : Int} (hcall : calls t = .enrollCourse studentId courseId)
    (hat : s.AtSection t)
    (henroll : s.disk.tables.enroll studentId courseId = some (code, s'.disk.tables))
    (hclash : ¬ Clashes calls ⟨s, t, s'⟩) : AgreesButMidway calls s' := by
  have hnever : ∀ (r : FileServer ι) a b, ¬ MidwayAt calls r t a b := fun _ _ _ hm => by
    cases hm.call.symm.trans hcall
  have hmidway : ∀ a b, Midway calls s' a b ↔ Midway calls s a b := fun a b =>
    midway_iff_of_not hs (hnever s a b) (hnever s' a b)
  obtain ⟨htables, -⟩ | ⟨rfl, -, -, hviews⟩ := Tables.enroll_views h.sound henroll
  · exact h.quiet htables hmidway
  · have hfree : ¬ Midway calls s studentId courseId := fun hm => hclash
      ⟨hat, studentId, courseId, hcall, hm, Tables.accepts_of_enroll h.sound henroll⟩
    refine ⟨h.sound.enroll henroll, fun a b hb hm => ?_, fun a b hb hm => ?_⟩
    · obtain ⟨hlists, hrosters⟩ := hviews a b hb
      rw [hlists, hrosters]
      by_cases hpair : a = studentId ∧ b = courseId
      · rw [if_pos hpair, if_pos hpair]
      · rw [if_neg hpair, if_neg hpair]
        exact h.agree a b hb fun hm' => hm ((hmidway a b).mpr hm')
    · have hold := (hmidway a b).mp hm
      have hpair : ¬ (a = studentId ∧ b = courseId) := fun hpair =>
        hfree (hpair.1 ▸ hpair.2 ▸ hold)
      rw [(hviews a b hb).2, if_neg hpair]
      exact h.midway a b hb hold

theorem AgreesButMidway.unrostered (h : AgreesButMidway calls s) (hs : s.step t = some s')
    {studentId courseId : CString} {records records' : List Course}
    (hrecords : s.disk.tables.courses = some records)
    (hfrom : unenrollFrom studentId courseId records = some records')
    (htables : s'.disk.tables = { s.disk.tables with courses := some records' })
    (hmid : MidwayAt calls s' t studentId courseId) : AgreesButMidway calls s' := by
  have hcourses : s.disk.tables.courseRecords = records := by
    rw [Tables.courseRecords, hrecords, Option.getD_some]
  have hsound := h.sound.courses
  rw [hcourses] at hsound
  have hcourses' : s'.disk.tables.courseRecords = records' := by
    rw [htables]
    rfl
  have hstudents : s'.disk.tables.studentRecords = s.disk.tables.studentRecords := by
    rw [htables]
    rfl
  -- for another pair the session is not midway
  have hother : ∀ (r : FileServer ι) a b, ¬ (a = studentId ∧ b = courseId) →
      ¬ MidwayAt calls r t a b := fun r a b hpair hm => by
    have heq := hm.call.symm.trans hmid.call
    cases heq
    exact hpair ⟨rfl, rfl⟩
  have hrosters := Tables.rostersIn_unenrollFrom hsound hfrom
  refine ⟨⟨?_, ?_⟩, fun a b hb hm => ?_, fun a b hb hm => ?_⟩
  · rw [hcourses']
    exact hsound.unenrollFrom sound_keptByEdits hfrom
  · rw [hstudents]
    exact h.sound.slots
  · have hpair : ¬ (a = studentId ∧ b = courseId) := fun hpair =>
      hm ⟨t, hpair.1 ▸ hpair.2 ▸ hmid⟩
    rw [hstudents, hcourses', hrosters, if_neg hpair, ← hcourses]
    refine h.agree a b hb fun hold => hm ?_
    exact (midway_iff_of_not hs (hother s a b hpair) (hother s' a b hpair)).mpr hold
  · rw [hcourses', hrosters]
    by_cases hpair : a = studentId ∧ b = courseId
    · rw [if_pos hpair]
    · rw [if_neg hpair, ← hcourses]
      refine h.midway a b hb ?_
      exact (midway_iff_of_not hs (hother s a b hpair) (hother s' a b hpair)).mp hm

theorem AgreesButMidway.unlisted (h : AgreesButMidway calls s) (hs : s.step t = some s')
    {studentId courseId : CString} {records : List Student} {out : Int × List Student}
    (hmid : MidwayAt calls s t studentId courseId)
    (hrecords : s.disk.tables.students = some records)
    (hin : unenrollIn studentId courseId records = some out)
    (htables : s'.disk.tables = { s.disk.tables with students := some out.2 })
    (hret : s'.Returned t out.1) : AgreesButMidway calls s' := by
  have hstudents : s.disk.tables.studentRecords = records := by
    rw [Tables.studentRecords, hrecords, Option.getD_some]
  have hslots := h.sound.slots
  rw [hstudents] at hslots
  have hstudents' : s'.disk.tables.studentRecords = out.2 := by
    rw [htables]
    rfl
  have hcourses : s'.disk.tables.courseRecords = s.disk.tables.courseRecords := by
    rw [htables]
    rfl
  have hdone : ∀ a b, ¬ MidwayAt calls s' t a b := fun a b hm => hm.running _ hret
  have hlists : ∀ a b, b ≠ .empty → listsIn out.2 a b =
      if a = studentId ∧ b = courseId then false else listsIn records a b := fun a b hb => by
    by_cases hc : courseId = .empty
    · rw [hc] at hin ⊢
      rw [listsIn_unenrollIn_empty hin hb, if_neg fun hpair => hb hpair.2]
    · exact Tables.listsIn_unenrollIn hslots hc hin a b hb
  -- for another pair the session is not midway
  have hother : ∀ a b, ¬ (a = studentId ∧ b = courseId) →
      (Midway calls s' a b ↔ Midway calls s a b) := fun a b hpair => by
    refine midway_iff_of_not hs (fun hm => ?_) (hdone a b)
    have heq := hm.call.symm.trans hmid.call
    cases heq
    exact hpair ⟨rfl, rfl⟩
  refine ⟨⟨?_, ?_⟩, fun a b hb hm => ?_, fun a b hb hm => ?_⟩
  · rw [hcourses]
    exact h.sound.courses
  · rw [hstudents']
    exact hslots.unenrollIn hin
  · rw [hstudents', hcourses, hlists a b hb]
    by_cases hpair : a = studentId ∧ b = courseId
    · rw [if_pos hpair, hpair.1, hpair.2]
      exact (h.midway studentId courseId (hpair.2 ▸ hb) ⟨t, hmid⟩).symm
    · rw [if_neg hpair, ← hstudents]
      exact h.agree a b hb fun hold => hm ((hother a b hpair).mpr hold)
  · rw [hcourses]
    by_cases hpair : a = studentId ∧ b = courseId
    · rw [hpair.1, hpair.2]
      exact h.midway studentId courseId (hpair.2 ▸ hb) ⟨t, hmid⟩
    · exact h.midway a b hb ((hother a b hpair).mp hm)

/-- A step that does not clash keeps it. -/
theorem AgreesButMidway.step (h : AgreesButMidway calls s) (hsim : Simulates calls s x)
    (hs : s.step t = some s')
    (hcalls : ∀ t, ∃ studentId courseId, calls t = .enrollCourse studentId courseId ∨
      calls t = .unenrollCourse studentId courseId)
    (hclash : ¬ Clashes calls ⟨s, t, s'⟩) : AgreesButMidway calls s' := by
  cases hsim.enrolment hs hcalls with
  | quiet htables hmidway =>
    refine h.quiet htables fun a b => ?_
    rw [midway_iff hs, hmidway]
    constructor
    · rintro (hm | ⟨u, -, hu⟩)
      · exact ⟨t, hm⟩
      · exact ⟨u, hu⟩
    · rintro ⟨u, hu⟩
      by_cases hut : u = t
      · exact .inl (hut ▸ hu)
      · exact .inr ⟨u, hut, hu⟩
  | missing htables hmissing hret => exact h.missing hs htables hmissing hret
  | enrolled hcall hat henroll => exact h.enrolled hs hcall hat henroll hclash
  | unrostered hrecords hfrom htables hmid => exact h.unrostered hs hrecords hfrom htables hmid
  | unlisted hmid hrecords hin htables hret => exact h.unlisted hs hmid hrecords hin htables hret

/-! ## Runs -/

variable {d : Disk} {history : List (Event (FileServer ι) ι)}

/-- From files that agree, whatever enrolments and unenrolments any number of sessions
interleave: when nobody is midway the files agree, if no `enroll_course` has been accepted for a
pair while an `unenroll_course` was midway for it. A comparison that runs on behind an id without
NUL is not a step, so that its session stays where it is. -/
theorem agree_of_run (hr : Run FileServer.step (.start d calls) history s)
    (hcalls : ∀ t, ∃ studentId courseId, calls t = .enrollCourse studentId courseId ∨
      calls t = .unenrollCourse studentId courseId)
    (hsound : d.tables.Sound) (hagree : d.tables.Agree)
    (hclash : ∀ e ∈ history, ¬ Clashes calls e)
    (hidle : ∀ studentId courseId, ¬ Midway calls s studentId courseId) :
    s.disk.tables.Agree := by
  have hno : ∀ t id, calls t ≠ .removeCourse id := fun u id hcall => by
    obtain ⟨_, _, hu | hu⟩ := hcalls u <;> cases hcall.symm.trans hu
  have hstart : AgreesButMidway calls (.start d calls) := by
    have hnever : ∀ a b, ¬ Midway calls (.start d calls) a b := fun a b ⟨u, hu⟩ => by
      cases hu.sections
    exact ⟨hsound, fun a b hb _ => hagree a b hb, fun a b _ hm => absurd hm (hnever a b)⟩
  have hinv : AgreesButMidway calls s ∧ ∃ x, Simulates calls s x := by
    refine hr.invariant (I := fun s => AgreesButMidway calls s ∧ ∃ x, Simulates calls s x)
      (A := fun e => ¬ Clashes calls e) ⟨hstart, _, simulates_start calls⟩ ?_ hclash
    rintro s t s' ⟨hinv, x, hsim⟩ hs hok
    refine ⟨hinv.step hsim hs hcalls hok, ?_⟩
    obtain ⟨-, hsim'⟩ | ⟨-, x', -, hsim'⟩ := hsim.step hs (hsim.fresh hno)
    · exact ⟨x, hsim'⟩
    · exact ⟨x', hsim'⟩
  exact fun a b hb => hinv.1.agree a b hb (hidle a b)

/-! ## Three calls for one pair -/

/-- One student and one course with a seat. -/
def oneStudent : Disk :=
  (Disk.empty.setFile .students (NamedFile.missing.rename
    [newStudent (.ofString "s1") (.ofString "Ann")])).setFile .courses (NamedFile.missing.rename
      [newCourse (.ofString "c1") (.ofString "Logic") (.ofString "f1") 1])

theorem sound_oneStudent : oneStudent.tables.Sound := by
  refine ⟨⟨List.nodup_singleton _, ?_⟩, ?_⟩
  · exact List.forall_mem_singleton.mpr (sound_newCourse _ _ _ _)
  · refine List.forall_mem_singleton.mpr ?_
    rw [listed_newStudent]
    exact List.nodup_nil

theorem agree_oneStudent : oneStudent.tables.Agree := by
  intro s c hc
  have hlists : listsIn oneStudent.tables.studentRecords s c = false :=
    @listsIn_append _ _ [] hc (.ofString "s1") (.ofString "Ann")
  rw [hlists]
  show false = [newCourse (.ofString "c1") (.ofString "Logic") (.ofString "f1") 1].any _
  rw [List.any_cons, roster_newCourse]
  simp

/-- The student enrols; then drops the course twice and enrols again. -/
def enrolAndDrop : Fin 4 → Call
  | 1 | 2 => .unenrollCourse (.ofString "s1") (.ofString "c1")
  | _ => .enrollCourse (.ofString "s1") (.ofString "c1")

theorem exists_pair_enrolAndDrop (t : Fin 4) : ∃ studentId courseId,
    enrolAndDrop t = .enrollCourse studentId courseId ∨
      enrolAndDrop t = .unenrollCourse studentId courseId := by
  refine ⟨.ofString "s1", .ofString "c1", ?_⟩
  revert t
  decide

omit [DecidableEq ι] in
theorem not_midwayAt {a b : CString} (h : s.sections t ≠ 1 ∨ (s.answer t).isSome) :
    ¬ MidwayAt calls s t a b := by
  intro hm
  obtain h | h := h
  · exact h hm.sections
  · obtain ⟨code, hret⟩ := FileServer.exists_returned h
    exact hm.running code hret

/-- The third session drops the course while the second one is midway, and the fourth one
enrols. The second one then clears the slot, but the student stays on the roster. -/
theorem midway_enrolment_disagrees : ¬ ∀ (d : Disk) (calls : Fin 4 → Call)
    (history : List (Event (FileServer (Fin 4)) (Fin 4))) (s : FileServer (Fin 4)),
    Run FileServer.step (.start d calls) history s →
    (∀ t, ∃ studentId courseId, calls t = .enrollCourse studentId courseId ∨
      calls t = .unenrollCourse studentId courseId) →
    d.tables.Sound → d.tables.Agree →
    (∀ studentId courseId, ¬ Midway calls s studentId courseId) → s.disk.tables.Agree := by
  intro hall
  have hreplay : ((replay FileServer.step [] (.start oneStudent enrolAndDrop)
      [0, 0, 1, 1, 2, 2, 2, 2, 3, 3, 1, 1]).map fun out => decide
        ((∀ t, (out.2.answer t).isSome) ∧
          listsIn out.2.disk.tables.studentRecords (.ofString "s1") (.ofString "c1") = false ∧
          rostersIn out.2.disk.tables.courseRecords (.ofString "s1") (.ofString "c1") = true)) =
      some true := by
    decide +kernel
  obtain ⟨⟨history, s⟩, hout, hcheck⟩ := Option.map_eq_some_iff.mp hreplay
  obtain ⟨hdone, hlists, hrosters⟩ := of_decide_eq_true hcheck
  have hagree := hall oneStudent enrolAndDrop history s (replay_run .start hout)
    exists_pair_enrolAndDrop sound_oneStudent agree_oneStudent
    fun a b ⟨t, hm⟩ => not_midwayAt (.inr (hdone t)) hm
  have hpair := hagree (.ofString "s1") (.ofString "c1") (by decide)
  rw [hlists, hrosters] at hpair
  cases hpair

/-- The student drops the course after the enrolment. -/
theorem agree_of_run_oneStudent : ∃ history s,
    Run FileServer.step (.start oneStudent enrolAndDrop) history s ∧ s.disk.tables.Agree := by
  have hreplay : ((replay FileServer.step [] (.start oneStudent enrolAndDrop)
      [0, 0, 1, 1, 1, 1]).map fun out => decide
        ((∀ t, out.2.sections t ≠ 1 ∨ (out.2.answer t).isSome) ∧ ∀ e ∈ out.1,
          (e.label = 0 ∨ e.label = 3) → ∀ t, e.before.sections t ≠ 1 ∨
            (e.before.answer t).isSome)) = some true := by
    decide +kernel
  obtain ⟨⟨history, s⟩, hout, hcheck⟩ := Option.map_eq_some_iff.mp hreplay
  obtain ⟨hidle, hbefore⟩ := of_decide_eq_true hcheck
  have hr := replay_run .start hout
  refine ⟨history, s, hr, agree_of_run hr exists_pair_enrolAndDrop sound_oneStudent
    agree_oneStudent ?_ fun a b ⟨t, hm⟩ => not_midwayAt (hidle t) hm⟩
  rintro e he ⟨-, a, b, hcall, ⟨t, hm⟩, -⟩
  have hlabel : e.label = 0 ∨ e.label = 3 := by
    match e.label, hcall with
    | 0, _ => exact .inl rfl
    | 3, _ => exact .inr rfl
    | 1, hcall | 2, hcall => cases hcall
  exact not_midwayAt (hbefore e he hlabel t) hm

end AcademiaCr.Academia
