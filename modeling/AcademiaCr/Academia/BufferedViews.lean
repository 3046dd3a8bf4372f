import AcademiaCr.Academia.Enrolment
import AcademiaCr.Academia.BufferSizes

/-!
# What the listings return

The six listings as one family, for every content of the files and every pattern of allocations
that succeed. With enough memory they return what the functions of `Views` return.

## Main definitions

- `ViewCall`: the listings, with the text of each
- `lists_within_buffers`: they stay within their buffers and return the text or `NULL`
- `execute_plain`: the functions of `Views` return the same text
-/

namespace AcademiaCr.Academia

open CLang CLang.CString RecordFile Resumption Prog Buffered

/-- A call of a listing. -/
inductive ViewCall where
  | enrolledCourses (studentId : CString)
  | courseEnrollments (courseId : CString)
  | allCourses
  | facultyCourses (facultyId : CString)
  | allStudents
  | allFaculty
  deriving DecidableEq

namespace ViewCall

/-- The program of a call. -/
def program : ViewCall → ListingOp (Option CString)
  | enrolledCourses studentId => Buffered.viewEnrolledCourses studentId
  | courseEnrollments courseId => Buffered.viewCourseEnrollments courseId
  | allCourses => Buffered.viewAllCourses
  | facultyCourses facultyId => Buffered.viewFacultyCourses facultyId
  | allStudents => Buffered.viewAllStudents
  | allFaculty => Buffered.viewAllFaculty

/-- The file that a call reads. -/
@[reducible] def file : ViewCall → FileName
  | enrolledCourses _ | allStudents => .students
  | courseEnrollments _ | allCourses | facultyCourses _ => .courses
  | allFaculty => .faculty

/-- A record of the file. -/
def Readable : (call : ViewCall) → call.file.Record → Prop
  | enrolledCourses _ | allStudents => Student.Readable
  | courseEnrollments _ | allCourses | facultyCourses _ => Course.Readable
  | allFaculty => Faculty.Readable

/-- The text before the lines. -/
def header : ViewCall → CString
  | enrolledCourses _ => Format.slots.header
  | courseEnrollments courseId => (Format.roster courseId).header
  | allCourses => Format.courses.header
  | facultyCourses facultyId => (Format.offering facultyId).header
  | allStudents => Format.students.header
  | allFaculty => Format.faculty.header

/-- The numbered lines, in their order. -/
def lines : (call : ViewCall) → List call.file.Record → List CString
  | enrolledCourses studentId, records =>
    match records.find? (Student.hasId studentId) with
    | some student => Format.slots.lines student.enrolledCourses.toList
    | none => []
  | courseEnrollments courseId, records =>
    match records.find? (Course.hasId courseId) with
    | some course => (Format.roster courseId).lines course.entries
    | none => []
  | allCourses, records => Format.courses.lines records
  | facultyCourses facultyId, records => (Format.offering facultyId).lines records
  | allStudents, records => Format.students.lines records
  | allFaculty, records => Format.faculty.lines records

/-- The header and the lines, or the line that stands in for them; or that there is no record
with the id. -/
def text : (call : ViewCall) → List call.file.Record → CString
  | enrolledCourses studentId, records =>
    match records.find? (Student.hasId studentId) with
    | some student => Format.slots.text student.enrolledCourses.toList
    | none => .ofString "Student not found\n"
  | courseEnrollments courseId, records =>
    match records.find? (Course.hasId courseId) with
    | some course => (Format.roster courseId).text course.entries
    | none => .ofString "Course not found\n"
  | allCourses, records => Format.courses.text records
  | facultyCourses facultyId, records => (Format.offering facultyId).text records
  | allStudents, records => Format.students.text records
  | allFaculty, records => Format.faculty.text records

end ViewCall

/-! ## The buffers -/

/-- At most as many lines as there are elements. -/
theorem Format.length_lines_le {ρ : Type} (fmt : Format ρ) (records : List ρ) :
    (fmt.lines records).length ≤ records.length := by
  rw [Format.lines, List.length_map, List.length_zipIdx]
  exact List.length_filter_le _ _

namespace ViewCall

variable {d : Disk} {plenty : Prop}

theorem yields_appendSlots {studentId : CString} {records : List Student}
    (hread : ∀ student ∈ records, student.Readable)
    (hcount : ((enrolledCourses studentId).lines records).length < 2147483647)
    {result : TextBlock} (hb : 2048 = result.size) (htext : result.text = Format.slots.header) :
    Yields d plenty (appendSlots studentId records 2048 result)
      (Grown plenty ((enrolledCourses studentId).text records)) := by
  rw [lines] at hcount
  rw [text, appendSlots]
  refine (yields_checked (locate?_student_of_within fun student hstudent =>
    (hread student hstudent).id.not_overrun studentId)).bind fun found hfound => ?_
  subst hfound
  cases hlocate : locate (Student.hasId studentId) records with
  | none =>
    rw [locate_eq_none.mp hlocate]
    exact yields_replace hb (length_literal (by decide))
  | some found =>
    rw [find?_of_locate (i := found.1) (r := found.2) hlocate] at hcount ⊢
    exact yields_listing Format.sized_slots (hread _ (mem_of_locate (i := found.1) hlocate).1).slots
      hcount hb htext

theorem yields_appendEnrollments {courseId : CString} {records : List Course}
    (hread : ∀ course ∈ records, course.Readable)
    (hcount : ((courseEnrollments courseId).lines records).length < 2147483647)
    {result : TextBlock} (hb : 2048 = result.size)
    (htext : result.text = (Format.roster courseId).header) :
    Yields d plenty (appendEnrollments courseId records 2048 result)
      (Grown plenty ((courseEnrollments courseId).text records)) := by
  rw [lines] at hcount
  rw [text, appendEnrollments]
  refine (yields_checked (locate?_course_of_within fun course hcourse =>
    (hread course hcourse).id.not_overrun courseId)).bind fun found hfound => ?_
  subst hfound
  cases hlocate : locate (Course.hasId courseId) records with
  | none =>
    rw [locate_eq_none.mp hlocate]
    exact yields_replace hb (length_literal (by decide))
  | some found =>
    rw [find?_of_locate (i := found.1) (r := found.2) hlocate] at hcount ⊢
    have hcourse : found.2.Readable := hread _ (mem_of_locate (i := found.1) hlocate).1
    have hroster := hcourse.roster
    have hloop := appendRoster_eq courseId found.2.enrolledStudents
      (show 0 + found.2.enrolledCount.toNat ≤ maxUsers by omega) 2048 result 1
    rw [List.drop_zero] at hloop
    show Yields d plenty ((appendRoster _ _ ((0 : Nat) : Int) _ _ _ _).bind _) _
    rw [hloop]
    exact yields_listing (Format.sized_roster courseId)
      (fun entry hentry => hcourse.entries entry (List.mem_of_mem_take hentry)) hcount hb htext

theorem yields_program (call : ViewCall)
    (hread : ∀ records, (d.file call.file).content = some records → ∀ r ∈ records, call.Readable r)
    (hcount : ∀ records, (d.file call.file).content = some records →
      (call.lines records).length < 2147483647) :
    Yields d plenty call.program fun result =>
      (result = none ∧ ((d.file call.file).content = none ∨ ¬ plenty)) ∨
        ∃ records, (d.file call.file).content = some records ∧
          result = some (call.text records) := by
  cases call with
  | allCourses => exact yields_listFile Format.sized_courses hread hcount
  | facultyCourses facultyId =>
    exact yields_listFile (Format.sized_offering facultyId) hread hcount
  | allStudents => exact yields_listFile Format.sized_students hread hcount
  | allFaculty => exact yields_listFile Format.sized_faculty hread hcount
  | enrolledCourses studentId =>
    exact yields_withBlock Format.sized_slots.header fun records h _ hb htext =>
      yields_appendSlots (hread records h) (hcount records h) hb htext
  | courseEnrollments courseId =>
    exact yields_withBlock (Format.sized_roster courseId).header fun records h _ hb htext =>
      yields_appendEnrollments (hread records h) (hcount records h) hb htext

end ViewCall

/-- Whatever the files hold and whichever allocations succeed, a listing writes within its
buffers and cuts no line. It returns `NULL`, without the file or the memory, or the text. -/
theorem lists_within_buffers (call : ViewCall) (d : Disk) (allocations : Nat → Bool)
    (hread : ∀ records, (d.file call.file).content = some records → ∀ r ∈ records, call.Readable r)
    (hcount : ∀ records, (d.file call.file).content = some records →
      (call.lines records).length < 2147483647) :
    ∃ result s, call.program.execute Host.exec ⟨d, allocations, []⟩ = some (result, s) ∧
      s.disk = d ∧ (∀ a ∈ s.accesses, a.Fits) ∧
      ((result = none ∧ ((d.file call.file).content = none ∨ ∃ n, allocations n = false)) ∨
        ∃ records, (d.file call.file).content = some records ∧
          result = some (call.text records)) := by
  have hsound : Host.Sound d (∀ n, allocations n = true) ⟨d, allocations, []⟩ :=
    ⟨rfl, fun h => h, fun a ha => (nomatch ha)⟩
  obtain ⟨result, s, hrun, hsound, hresult⟩ := call.yields_program hread hcount _ hsound
  refine ⟨result, s, hrun, hsound.disk, hsound.fits, hresult.imp_left fun hnull => ?_⟩
  refine ⟨hnull.1, hnull.2.imp_right fun hfails => ?_⟩
  obtain ⟨n, hn⟩ := not_forall.mp hfails
  exact ⟨n, Bool.eq_false_of_not_eq_true hn⟩

/-- The lines of sixty students do not fit into the first block, which grows. -/
theorem sixtyStudents_within_buffers : ∃ text s,
    ViewCall.allStudents.program.execute Host.exec ⟨Disk.withStudents 60, fun _ => true, []⟩ =
      some (some text, s) ∧ s.disk = Disk.withStudents 60 ∧ (∀ a ∈ s.accesses, a.Fits) ∧
      2048 < text.length := by
  have hcontent : (Disk.withStudents 60).students.content =
      some (.replicate 60 (newStudent (.ofString "s1") (.ofString "John"))) := rfl
  obtain ⟨result, s, hrun, hdisk, hfits, hresult⟩ :=
    lists_within_buffers .allStudents (Disk.withStudents 60) (fun _ => true) (fun records h => by
      cases hcontent.symm.trans h
      intro student hstudent
      rw [List.eq_of_mem_replicate hstudent]
      exact ⟨by decide +kernel, by decide +kernel, by decide +kernel⟩) fun records h => by
        cases hcontent.symm.trans h
        exact Nat.lt_of_le_of_lt (Format.students.length_lines_le _) (by decide)
  obtain ⟨-, hnone | ⟨n, hn⟩⟩ | ⟨records, hrecords, rfl⟩ := hresult
  · cases hcontent.symm.trans hnone
  · cases hn
  · cases hcontent.symm.trans hrecords
    exact ⟨_, s, hrun, hdisk, hfits, by decide +kernel⟩

/-- The number of lines has to be one that `count` can take: with enough memory, and more lines,
a listing has no result. -/
theorem no_result_of_many_lines (call : ViewCall) {d : Disk} {allocations : Nat → Bool}
    (hplenty : ∀ n, allocations n = true) {records : List call.file.Record}
    (h : (d.file call.file).content = some records) (hread : ∀ r ∈ records, call.Readable r)
    (hmany : 2147483647 ≤ (call.lines records).length) :
    call.program.execute Host.exec ⟨d, allocations, []⟩ = none := by
  have hsound : Host.Sound d True ⟨d, allocations, []⟩ :=
    ⟨rfl, fun _ => hplenty, fun a ha => (nomatch ha)⟩
  cases call with
  | allCourses =>
    exact fails_listFile Format.sized_courses h hread hmany _ hsound
  | facultyCourses facultyId =>
    exact fails_listFile (Format.sized_offering facultyId) h hread hmany _ hsound
  | allStudents =>
    exact fails_listFile Format.sized_students h hread hmany _ hsound
  | allFaculty =>
    exact fails_listFile Format.sized_faculty h hread hmany _ hsound
  | enrolledCourses studentId =>
    rw [ViewCall.lines] at hmany
    split at hmany
    · next student _ =>
      have hle := Format.slots.length_lines_le student.enrolledCourses.toList
      rw [student.enrolledCourses.length_toList] at hle
      exact absurd (hmany.trans hle) (by decide)
    · exact absurd hmany (by decide)
  | courseEnrollments courseId =>
    rw [ViewCall.lines] at hmany
    split at hmany
    · next course _ =>
      have hle := (Format.roster courseId).length_lines_le course.entries
      have hentries : course.entries.length ≤ maxUsers := by
        rw [Course.entries, List.length_take, course.enrolledStudents.length_toList]
        exact Nat.min_le_right _ _
      exact absurd (hmany.trans (hle.trans hentries)) (by decide)
    · exact absurd hmany (by decide)

theorem prefix_appendAll (s : CString) (texts : List CString) : s.1 <+: (s.appendAll texts).1 := by
  induction texts generalizing s with
  | nil => exact List.prefix_rfl
  | cons t texts ih => exact (List.prefix_append s.1 t.1).trans (ih (s.append t))

/-- An id that no student has gets neither `NULL` nor a text that starts with the header. -/
theorem missing_not_listed : ¬ ∀ (call : ViewCall) (d : Disk) (allocations : Nat → Bool),
    (∀ records, (d.file call.file).content = some records → ∀ r ∈ records, call.Readable r) →
    ∃ result s, call.program.execute Host.exec ⟨d, allocations, []⟩ = some (result, s) ∧
      (result = none ∨ ∃ lines, result = some (call.header.appendAll lines)) := by
  intro h
  have hcontent : (Disk.withStudents 0).students.content = some [] := rfl
  obtain ⟨result, s, hrun, hlisted⟩ := h (.enrolledCourses (.ofString "s1")) (Disk.withStudents 0)
    (fun _ => true) fun records hrecords r hr => by
      cases hcontent.symm.trans hrecords
      cases hr
  have hresult : (ViewCall.enrolledCourses (.ofString "s1")).program.execute Host.exec
      ⟨Disk.withStudents 0, fun _ => true, []⟩ = some (some (.ofString "Student not found\n"), _) :=
    rfl
  cases hresult.symm.trans hrun
  obtain hnull | ⟨lines, htext⟩ := hlisted
  · cases hnull
  · obtain ⟨rest, hrest⟩ := prefix_appendAll Format.slots.header lines
    have hstart : (Format.slots.header.1 ++ rest).head? =
        (ofString "Student not found\n").1.head? := by
      rw [hrest]
      exact congrArg (fun text : CString => text.1.head?) (Option.some.inj htext).symm
    have hheader : Format.slots.header.1.head? = some 69 := by decide +kernel
    have hother : (ofString "Student not found\n").1.head? = some 83 := by decide +kernel
    rw [List.head?_append, hheader, hother] at hstart
    exact absurd (Option.some.inj hstart) (by decide)

/-! ## The functions of `Views` -/

namespace Format

variable {ρ : Type} {fmt : Format ρ} {readable : ρ → Prop} {records : List ρ}

theorem lines_listing (hfmt : fmt.Sized readable) (hread : ∀ r ∈ records, readable r)
    (hcount : (fmt.lines records).length < 2147483647) :
    fmt.listing.lines records = fmt.lines records := by
  rw [lines, List.length_map, List.length_zipIdx] at hcount
  refine List.map_congr_left fun r hr => truncate_of_lt ?_
  obtain ⟨_, hlt, hmem⟩ := List.mem_zipIdx hr
  have hlt : r.2 < 1 + (records.filter fmt.shows).length := hlt
  refine hfmt.line r.2 r.1 (by omega) (hread r.1 ?_)
  rw [hmem]
  exact (List.mem_filter.mp (List.getElem_mem _)).1

/-- Nothing is cut where the lines fit. -/
theorem text_listing (hfmt : fmt.Sized readable) (hread : ∀ r ∈ records, readable r)
    (hcount : (fmt.lines records).length < 2147483647) :
    fmt.listing.text records = fmt.text records := by
  rw [Listing.text, lines_listing hfmt hread hcount]
  rfl

end Format

theorem rosterLines_eq (courseId : CString) (roster : CArray Id maxUsers) {i k : Nat}
    (hik : i + k ≤ maxUsers) (bufferSize : Nat) (result : CString) (count : Nat) :
    rosterLines (.roster courseId) roster i k bufferSize result count =
      appendLines (.roster courseId) ((roster.toList.drop i).take k) bufferSize result count := by
  induction k generalizing i bufferSize result count with
  | zero => rfl
  | succ k ih =>
    have hi : i < roster.toList.length := by
      rw [roster.length_toList]
      omega
    have hnext : ((i : Int) + 1) = ((i + 1 : Nat) : Int) := rfl
    rw [List.drop_eq_getElem_cons hi, List.take_succ_cons, rosterLines, appendLines,
      CArray.get?_ofNat, List.getElem?_eq_getElem hi, hnext]
    simp only [ih (show i + 1 + k ≤ maxUsers by omega)]
    rfl

namespace ViewCall

/-- The function of `Views`. -/
def plain : ViewCall → FileOp (Option CString)
  | enrolledCourses studentId => Academia.viewEnrolledCourses studentId
  | courseEnrollments courseId => Academia.viewCourseEnrollments courseId
  | allCourses => Academia.viewAllCourses
  | facultyCourses facultyId => Academia.viewFacultyCourses facultyId
  | allStudents => Academia.viewAllStudents
  | allFaculty => Academia.viewAllFaculty

variable {d : Disk}

theorem execute_enrollmentLines (courseId : CString) {course : Course}
    (hroster : course.enrolledCount ≤ maxUsers)
    (hentries : ∀ entry ∈ course.entries, entry.Terminated) : ∃ bufferSize,
      d.execute (enrollmentLines (.roster courseId) course) =
        some (some (bufferSize, (Format.roster courseId).listing.text course.entries), d) := by
  have hloop := rosterLines_eq courseId course.enrolledStudents
    (show 0 + course.enrolledCount.toNat ≤ maxUsers by omega) 2048
    (Format.roster courseId).header 1
  rw [List.drop_zero] at hloop
  obtain ⟨size₁, hlines⟩ := Disk.execute_appendLines d (Format.roster courseId)
    (fun entry hentry => (Format.sized_roster courseId).legible entry (hentries entry hentry)) 2048
    (Format.roster courseId).header 1
  obtain ⟨size₂, hnone⟩ := Disk.execute_appendNone d (Format.roster courseId).listing
    course.entries size₁
  refine ⟨size₂, ?_⟩
  rw [enrollmentLines]
  show d.execute (rosterLines _ _ ((0 : Nat) : Int) _ _ _ _ >>= _) = _
  rw [hloop]
  exact (Disk.execute_bind_of hlines _).trans hnone

/-- A listing of a whole file returns the text, with nothing cut. -/
theorem execute_listFile {f : FileName} {fmt : Format f.Record} {readable : f.Record → Prop}
    (hfmt : fmt.Sized readable) {records : List f.Record} (h : (d.file f).content = some records)
    (hread : ∀ r ∈ records, readable r) (hcount : (fmt.lines records).length < 2147483647) :
    d.execute (listing f fmt) = some (some (fmt.text records), d) := by
  rw [← Format.text_listing hfmt hread hcount]
  exact Disk.execute_listing h fun r hr => hfmt.legible r (hread r hr)

/-- The function of `Views` returns the text, with nothing cut. -/
theorem execute_plain (call : ViewCall) {records : List call.file.Record}
    (h : (d.file call.file).content = some records) (hread : ∀ r ∈ records, call.Readable r)
    (hcount : (call.lines records).length < 2147483647) :
    d.execute call.plain = some (some (call.text records), d) := by
  cases call with
  | allCourses => exact execute_listFile Format.sized_courses h hread hcount
  | facultyCourses facultyId =>
    exact execute_listFile (Format.sized_offering facultyId) h hread hcount
  | allStudents => exact execute_listFile Format.sized_students h hread hcount
  | allFaculty => exact execute_listFile Format.sized_faculty h hread hcount
  | enrolledCourses studentId =>
    have hslots : ∀ student, records.find? (Student.hasId studentId) = some student →
        ∀ slot ∈ student.enrolledCourses.toList, slot.Terminated :=
      fun student hfind => (hread student (List.mem_of_find?_eq_some hfind)).slots
    have hview : d.execute (View.program studentId .enrolled) = _ := Disk.execute_view h
      ⟨fun student hstudent => (hread student hstudent).id.not_overrun studentId, hslots⟩
    refine hview.trans ?_
    rw [text, View.text]
    cases hfind : records.find? (Student.hasId studentId) with
    | none => rfl
    | some student =>
      rw [lines, hfind] at hcount
      exact congrArg (fun text => some (some text, d))
        (Format.text_listing Format.sized_slots (hslots student hfind) hcount)
  | courseEnrollments courseId =>
    refine (Disk.execute_withFile_malloc h _).trans ?_
    rw [text, Disk.execute_access, locate?_course_of_within fun course hcourse =>
      (hread course hcourse).id.not_overrun courseId, Option.bind_some]
    rw [lines] at hcount
    cases hlocate : locate (Course.hasId courseId) records with
    | none =>
      rw [locate_eq_none.mp hlocate]
      rfl
    | some found =>
      rw [find?_of_locate (i := found.1) (r := found.2) hlocate] at hcount ⊢
      have hcourse : found.2.Readable := hread _ (mem_of_locate (i := found.1) hlocate).1
      have hentries : ∀ entry ∈ found.2.entries, entry.Terminated :=
        fun entry hentry => hcourse.entries entry (List.mem_of_mem_take hentry)
      obtain ⟨bufferSize, hlines⟩ :=
        execute_enrollmentLines (d := d) courseId hcourse.roster hentries
      rw [Format.text_listing (Format.sized_roster courseId) hentries hcount] at hlines
      exact Disk.execute_bind_of hlines finishText

/-- With enough memory the listing returns what the function of `Views` does. -/
theorem execute_program (call : ViewCall) {allocations : Nat → Bool}
    (hplenty : ∀ n, allocations n = true) {records : List call.file.Record}
    (h : (d.file call.file).content = some records) (hread : ∀ r ∈ records, call.Readable r)
    (hcount : (call.lines records).length < 2147483647) :
    ∃ result s, call.program.execute Host.exec ⟨d, allocations, []⟩ = some (result, s) ∧
      d.execute call.plain = some (result, s.disk) := by
  have hsound : Host.Sound d True ⟨d, allocations, []⟩ :=
    ⟨rfl, fun _ => hplenty, fun a ha => (nomatch ha)⟩
  obtain ⟨result, s, hrun, hsound, hresult⟩ := call.yields_program
    (fun _ h' => by cases h.symm.trans h'; exact hread)
    (fun _ h' => by cases h.symm.trans h'; exact hcount) _ hsound
  refine ⟨result, s, hrun, ?_⟩
  rw [hsound.disk, call.execute_plain h hread hcount]
  obtain ⟨_, hmissing | hstarved⟩ | ⟨records', hcontent, rfl⟩ := hresult
  · cases h.symm.trans hmissing
  · exact absurd trivial hstarved
  · cases h.symm.trans hcontent
    rfl

end ViewCall

end AcademiaCr.Academia
