import AcademiaCr.Academia.Calls
import AcademiaCr.Academia.Menus

/-!
# Listings that reach the client

The listings build their texts in buffers that grow. The menu loops send what fits into a
response of 1024 bytes.

## Main definitions

- `View`: the listings that the menus offer, with the requests for them
- `View.text`: the text of a listing, one numbered line for each matching record
- `View.size`: the bytes that it takes
- `View.Legible`: the strings that are compared and printed end within their fields
- `View.Complete`: the client gets the whole text
- `complete_iff`: when it does
-/

namespace AcademiaCr.Academia

open CLang CLang.CString RecordFile Resumption Prog

/-! ## Texts -/

/-- A text fits into the response if and only if there is room for its NUL. -/
theorem respond_eq_iff {text : CString} : respond text = text ↔ text.length ≤ 1023 :=
  (truncate_eq_self (by decide)).trans Nat.lt_succ_iff

/-! ## Listings -/

/-- A listing: its header, the elements of a list that it shows, a numbered line for each, and
the line that stands in for an empty listing. -/
structure Listing (ρ : Type) where
  header : CString
  noneText : CString
  matching : ρ → Bool
  line : Nat → ρ → CString

namespace Listing

variable {ρ : Type}

/-- The lines of the matching elements, numbered from 1. -/
def lines (l : Listing ρ) (records : List ρ) : List CString :=
  ((records.filter l.matching).zipIdx 1).map fun r => l.line r.2 r.1

/-- The header and the lines, in the order of the file. -/
def text (l : Listing ρ) (records : List ρ) : CString :=
  l.header.appendAll (if l.lines records = [] then [l.noneText] else l.lines records)

/-- The bytes of the header and of a line for each matching element. -/
def size (l : Listing ρ) (records : List ρ) : Nat :=
  l.header.length +
    if l.lines records = [] then l.noneText.length
    else ((l.lines records).map CString.length).sum

theorem length_text (l : Listing ρ) (records : List ρ) :
    (l.text records).length = l.size records := by
  rw [text, size, length_appendAll]
  split <;> simp

end Listing

namespace Format

variable {ρ : Type}

/-- The listing shows the element. -/
def shows (fmt : Format ρ) (r : ρ) : Bool := fmt.matching r = some true

/-- The texts of a listing, with lines that are cut where they are too long. -/
def listing (fmt : Format ρ) : Listing ρ where
  header := fmt.header
  noneText := fmt.noneText
  matching := fmt.shows
  line count r := (formatted ((fmt.args count r).map Arg.str)).truncate fmt.size

/-- The comparison stays within its array, and the strings of a line that is shown end within
theirs. -/
def Legible (fmt : Format ρ) (r : ρ) : Prop :=
  ∃ shown, fmt.matching r = some shown ∧
    (shown = true → ∀ arg ∈ fmt.pieces r, arg.Terminated)

theorem legible_of_shown {fmt : Format ρ} {r : ρ} (h : fmt.matching r = some true) :
    fmt.Legible r ↔ ∀ arg ∈ fmt.pieces r, arg.Terminated := by
  constructor
  · rintro ⟨shown, hshown, hargs⟩
    cases h.symm.trans hshown
    exact hargs rfl
  · exact fun hargs => ⟨true, h, fun _ => hargs⟩

/-- A line in the local array. -/
theorem line_eq {fmt : Format ρ} {r : ρ} (h : ∀ arg ∈ fmt.pieces r, arg.Terminated)
    (count : Nat) : fmt.line count r = some (fmt.listing.line count r) :=
  if_pos (List.forall_mem_cons.mpr ⟨trivial, h⟩)

theorem line_eq_none {fmt : Format ρ} {r : ρ} (h : ¬ ∀ arg ∈ fmt.pieces r, arg.Terminated)
    (count : Nat) : fmt.line count r = none :=
  if_neg fun hargs => h (List.forall_mem_cons.mp hargs).2

end Format

/-! ## The loops of the listings -/

namespace Disk

variable {ρ : Type} {d : Disk}

theorem execute_appendText (d : Disk) (bufferSize : Nat) (result info : CString) :
    ∃ bufferSize', d.execute (appendText bufferSize result info) =
      some (some (bufferSize', result.append info), d) := by
  rw [appendText]
  split
  · exact ⟨_, rfl⟩
  · exact ⟨bufferSize, rfl⟩

theorem execute_appendLines (d : Disk) (fmt : Format ρ) {records : List ρ}
    (hread : ∀ r ∈ records, fmt.Legible r) (bufferSize : Nat) (result : CString) (count : Nat) :
    ∃ bufferSize', d.execute (appendLines fmt records bufferSize result count) =
      some (some (bufferSize',
        result.appendAll (((records.filter fmt.shows).zipIdx count).map fun r =>
          fmt.listing.line r.2 r.1), count + (records.filter fmt.shows).length), d) := by
  induction records generalizing bufferSize result count with
  | nil => exact ⟨bufferSize, rfl⟩
  | cons r records ih =>
    have htail : ∀ r ∈ records, fmt.Legible r := fun x hx => hread x (List.mem_cons_of_mem _ hx)
    obtain ⟨shown, hmatching, hargs⟩ := hread r List.mem_cons_self
    rw [appendLines, execute_access, hmatching, Option.bind_some]
    cases shown with
    | false =>
      rw [List.filter_cons_of_neg (by simp [Format.shows, hmatching])]
      exact ih htail bufferSize result count
    | true =>
      -- the line is appended, and the next one has the next number
      obtain ⟨size₁, happend⟩ := execute_appendText d bufferSize result (fmt.listing.line count r)
      obtain ⟨size₂, hrest⟩ :=
        ih htail size₁ (result.append (fmt.listing.line count r)) (count + 1)
      refine ⟨size₂, ?_⟩
      rw [if_pos rfl, execute_access, fmt.line_eq (hargs rfl), Option.bind_some,
        execute_bind_of happend, List.filter_cons_of_pos (by simp [Format.shows, hmatching]),
        List.zipIdx_cons, List.length_cons]
      show d.execute (appendLines _ _ _ _ _) = _
      rw [hrest, Nat.add_right_comm, Nat.add_assoc]
      rfl

/-- The loop gets to every element. -/
theorem execute_appendLines_none (d : Disk) (fmt : Format ρ) {records : List ρ}
    (hread : ¬ ∀ r ∈ records, fmt.Legible r) (bufferSize : Nat) (result : CString) (count : Nat) :
    d.execute (appendLines fmt records bufferSize result count) = none := by
  induction records generalizing bufferSize result count with
  | nil => exact absurd (fun r hr => by cases hr) hread
  | cons r records ih =>
    rw [appendLines, execute_access]
    cases hmatching : fmt.matching r with
    | none => rfl
    | some shown =>
      rw [Option.bind_some]
      cases shown with
      | false =>
        refine ih (fun htail => hread ?_) bufferSize result count
        exact List.forall_mem_cons.mpr ⟨⟨false, hmatching, fun h => by cases h⟩, htail⟩
      | true =>
        rw [if_pos rfl, execute_access]
        by_cases hargs : ∀ arg ∈ fmt.pieces r, arg.Terminated
        · obtain ⟨size₁, happend⟩ :=
            execute_appendText d bufferSize result (fmt.listing.line count r)
          rw [fmt.line_eq hargs, Option.bind_some, execute_bind_of happend]
          refine ih (fun htail => hread ?_) _ _ _
          exact List.forall_mem_cons.mpr ⟨(fmt.legible_of_shown hmatching).mpr hargs, htail⟩
        · rw [fmt.line_eq_none hargs]
          rfl

/-- The line that stands in for an empty listing is the last step to its text. -/
theorem execute_appendNone (d : Disk) (l : Listing ρ) (records : List ρ) (bufferSize : Nat) :
    ∃ bufferSize', d.execute (appendNone l.noneText bufferSize
      (l.header.appendAll (l.lines records)) (1 + (records.filter l.matching).length)) =
        some (some (bufferSize', l.text records), d) := by
  have hcount : 1 + (records.filter l.matching).length = 1 ↔ l.lines records = [] := by
    simp [Listing.lines]
  rw [appendNone, Listing.text]
  split
  · next hnone =>
    have hempty := hcount.mp hnone
    obtain ⟨bufferSize', happend⟩ := execute_appendText d bufferSize
      (l.header.appendAll (l.lines records)) l.noneText
    refine ⟨bufferSize', happend.trans ?_⟩
    rw [if_pos hempty, hempty]
    rfl
  · next hsome =>
    rw [if_neg (mt hcount.mpr hsome)]
    exact ⟨bufferSize, rfl⟩

end Disk

/-! ## The views of the menus -/

/-- The listings that the menus offer. -/
inductive View where
  | students
  | faculty
  | courses
  | enrolled
  | offering
  deriving DecidableEq, Repr

namespace View

/-- The request of a view. -/
def request : View → Request
  | students => .viewStudents
  | faculty => .viewFaculty
  | courses => .viewCourses
  | enrolled => .viewEnrolled
  | offering => .viewOffering

/-- The menu that offers a view, and its choice there. -/
def choice : View → Role × Int
  | students => (.admin, 2)
  | faculty => (.admin, 4)
  | courses => (.student, 1)
  | enrolled => (.student, 4)
  | offering => (.faculty, 1)

/-- The menu executes the request of the view. -/
theorem request_choice (view : View) :
    view.choice.1.menu.request view.choice.2 [] = view.request := by
  cases view <;> rfl

/-- The file that a view reads. -/
@[reducible] def file : View → FileName
  | students => .students
  | faculty => .faculty
  | courses => .courses
  | enrolled => .students
  | offering => .courses

/-- The function that builds the text of a view for a user. -/
def program (userId : CString) : View → FileOp (Option CString)
  | students => viewAllStudents
  | faculty => viewAllFaculty
  | courses => viewAllCourses
  | enrolled => viewEnrolledCourses userId
  | offering => viewFacultyCourses userId

end View

/-! ## What the views show -/

namespace View

variable {userId : CString}

/-- The text of a view. A user without a student record gets a text that says so. -/
def text (userId : CString) : (view : View) → List view.file.Record → CString
  | students, records => Format.students.listing.text records
  | faculty, records => Format.faculty.listing.text records
  | courses, records => Format.courses.listing.text records
  | enrolled, records =>
    match records.find? (Student.hasId userId) with
    | some student => Format.slots.listing.text student.enrolledCourses.toList
    | none => .ofString "Student not found\n"
  | offering, records => (Format.offering userId).listing.text records

/-- The bytes that the header and the lines take. -/
def size (userId : CString) : (view : View) → List view.file.Record → Nat
  | students, records => Format.students.listing.size records
  | faculty, records => Format.faculty.listing.size records
  | courses, records => Format.courses.listing.size records
  | enrolled, records =>
    match records.find? (Student.hasId userId) with
    | some student => Format.slots.listing.size student.enrolledCourses.toList
    | none => 18
  | offering, records => (Format.offering userId).listing.size records

/-- The comparisons stay within their arrays, and the strings that are printed end within their
fields. -/
def Legible (userId : CString) : (view : View) → List view.file.Record → Prop
  | students, records => ∀ student ∈ records, student.id.Terminated ∧ student.name.Terminated
  | faculty, records => ∀ faculty ∈ records, faculty.id.Terminated ∧ faculty.name.Terminated
  | courses, records => ∀ course ∈ records,
    course.id.Terminated ∧ course.name.Terminated ∧ course.facultyId.Terminated
  | enrolled, records => (∀ student ∈ records, ¬ student.id.Overrun userId) ∧
    ∀ student, records.find? (Student.hasId userId) = some student →
      ∀ slot ∈ student.enrolledCourses.toList, slot.Terminated
  | offering, records => ∀ course ∈ records, ¬ course.facultyId.Overrun userId ∧
    (course.facultyId.str = userId → course.id.Terminated ∧ course.name.Terminated)

theorem length_text (view : View) (records : List view.file.Record) :
    (view.text userId records).length = view.size userId records := by
  cases view with
  | students | faculty | courses | offering => exact Listing.length_text _ _
  | enrolled =>
    rw [text, size]
    cases records.find? (Student.hasId userId) with
    | none => decide +kernel
    | some student => exact Listing.length_text _ _

end View

namespace Format

theorem legible_students (student : Student) :
    students.Legible student ↔ student.id.Terminated ∧ student.name.Terminated := by
  rw [legible_of_shown rfl]
  simp [students, Arg.Terminated, Arg.ofString]

theorem legible_faculty (lecturer : Faculty) :
    faculty.Legible lecturer ↔ lecturer.id.Terminated ∧ lecturer.name.Terminated := by
  rw [legible_of_shown rfl]
  simp [faculty, Arg.Terminated, Arg.ofString]

theorem legible_courses (course : Course) : courses.Legible course ↔
    course.id.Terminated ∧ course.name.Terminated ∧ course.facultyId.Terminated := by
  rw [legible_of_shown rfl]
  simp [courses, Arg.Terminated, Arg.ofString]

theorem legible_offering (facultyId : CString) (course : Course) :
    (offering facultyId).Legible course ↔ ¬ course.facultyId.Overrun facultyId ∧
      (course.facultyId.str = facultyId → course.id.Terminated ∧ course.name.Terminated) := by
  have hmatching : (offering facultyId).matching course = course.facultyId.strcmp facultyId := rfl
  rw [Legible, hmatching, CArray.strcmp_eq]
  split
  · next hover => simp [hover]
  · next hover => simp [hover, offering, Arg.Terminated, Arg.ofString]

/-- An empty slot holds a NUL. -/
theorem legible_slots (slot : Id) : slots.Legible slot ↔ slot.Terminated := by
  by_cases hempty : slot.toList.head? = some 0
  · have hterminated : slot.Terminated := List.mem_of_head? hempty
    simp [Legible, slots, hempty, hterminated]
  · simp [Legible, slots, hempty, entryPieces, Arg.Terminated, Arg.ofString]

end Format

namespace Disk

variable {d : Disk} {userId : CString} {view : View}

/-- A section of a listing that gets its memory, on a file that exists. -/
theorem execute_withFile_malloc {f : FileName} {records : List f.Record}
    (h : (d.file f).content = some records) (body : List f.Record → FileOp (Option CString)) :
    d.execute (withFile f false none fun fd => do
      perform .semWait
      if ← perform .malloc then body (← perform (.read f fd)) else release none) =
        d.execute (body records) := by
  obtain ⟨fd, hn, rfl⟩ := Option.map_eq_some_iff.mp h
  exact execute_withFile_named hn false none _

/-- A listing of a whole file returns its text. -/
theorem execute_listing {f : FileName} {records : List f.Record}
    (h : (d.file f).content = some records) {fmt : Format f.Record}
    (hread : ∀ r ∈ records, fmt.Legible r) :
    d.execute (listing f fmt) = some (some (fmt.listing.text records), d) := by
  obtain ⟨size₁, hlines⟩ := execute_appendLines d fmt hread 2048 fmt.header 1
  obtain ⟨size₂, hnone⟩ := execute_appendNone d fmt.listing records size₁
  refine (execute_withFile_malloc h _).trans ((execute_bind_of hlines _).trans ?_)
  exact execute_bind_of hnone finishText

theorem execute_listing_none {f : FileName} {records : List f.Record}
    (h : (d.file f).content = some records) {fmt : Format f.Record}
    (hread : ¬ ∀ r ∈ records, fmt.Legible r) : d.execute (listing f fmt) = none := by
  refine (execute_withFile_malloc h _).trans ?_
  rw [execute, bind_eq, execute_bind, ← execute, execute_appendLines_none d fmt hread]
  rfl

theorem execute_slotLines (d : Disk) {student : Student}
    (hread : ∀ slot ∈ student.enrolledCourses.toList, slot.Terminated) : ∃ bufferSize,
      d.execute (slotLines student) =
        some (some (bufferSize, Format.slots.listing.text student.enrolledCourses.toList), d) := by
  obtain ⟨size₁, hlines⟩ := execute_appendLines d Format.slots
    (fun slot hslot => (Format.legible_slots slot).mpr (hread slot hslot)) 2048
    Format.slots.header 1
  obtain ⟨size₂, hnone⟩ :=
    execute_appendNone d Format.slots.listing student.enrolledCourses.toList size₁
  exact ⟨size₂, (execute_bind_of hlines _).trans hnone⟩

theorem execute_slotLines_none (d : Disk) {student : Student}
    (hread : ¬ ∀ slot ∈ student.enrolledCourses.toList, slot.Terminated) :
    d.execute (slotLines student) = none := by
  rw [execute, slotLines, bind_eq, execute_bind, ← execute, execute_appendLines_none d Format.slots]
  · rfl
  · exact fun hlegible => hread fun slot hslot =>
      (Format.legible_slots slot).mp (hlegible slot hslot)

/-- The function of a view returns its text, and changes no file. -/
theorem execute_view {records : List view.file.Record}
    (h : (d.file view.file).content = some records) (hread : view.Legible userId records) :
    d.execute (view.program userId) = some (some (view.text userId records), d) := by
  cases view with
  | students =>
    exact execute_listing h fun student hstudent =>
      (Format.legible_students student).mpr (hread student hstudent)
  | faculty =>
    exact execute_listing h fun lecturer hlecturer =>
      (Format.legible_faculty lecturer).mpr (hread lecturer hlecturer)
  | courses =>
    exact execute_listing h fun course hcourse =>
      (Format.legible_courses course).mpr (hread course hcourse)
  | offering =>
    exact execute_listing h fun course hcourse =>
      (Format.legible_offering userId course).mpr (hread course hcourse)
  | enrolled =>
    obtain ⟨hids, hslots⟩ := hread
    refine (execute_withFile_malloc h _).trans ?_
    have hsearch := locate?_student userId records
    rw [if_neg fun hover => by obtain ⟨student, hmem, hrun⟩ := hover; exact hids student hmem hrun]
      at hsearch
    rw [execute_access, hsearch, Option.bind_some, View.text]
    cases hlocate : locate (Student.hasId userId) records with
    | none =>
      rw [locate_eq_none.mp hlocate]
      rfl
    | some found =>
      have hfind := find?_of_locate (i := found.1) (r := found.2) hlocate
      rw [hfind]
      obtain ⟨bufferSize, hlines⟩ := execute_slotLines d (hslots found.2 hfind)
      exact execute_bind_of hlines finishText

/-- Without a NUL where one is needed, the function of a view has no result. -/
theorem execute_view_none {records : List view.file.Record}
    (h : (d.file view.file).content = some records) (hread : ¬ view.Legible userId records) :
    d.execute (view.program userId) = none := by
  cases view with
  | students =>
    exact execute_listing_none h fun hall => hread fun student hstudent =>
      (Format.legible_students student).mp (hall student hstudent)
  | faculty =>
    exact execute_listing_none h fun hall => hread fun lecturer hlecturer =>
      (Format.legible_faculty lecturer).mp (hall lecturer hlecturer)
  | courses =>
    exact execute_listing_none h fun hall => hread fun course hcourse =>
      (Format.legible_courses course).mp (hall course hcourse)
  | offering =>
    exact execute_listing_none h fun hall => hread fun course hcourse =>
      (Format.legible_offering userId course).mp (hall course hcourse)
  | enrolled =>
    refine (execute_withFile_malloc h _).trans ?_
    rw [execute_access, locate?_student]
    split
    · rfl
    · next hids =>
      rw [Option.bind_some]
      have hslots : ¬ ∀ student, records.find? (Student.hasId userId) = some student →
          ∀ slot ∈ student.enrolledCourses.toList, slot.Terminated := fun hslots =>
        hread ⟨fun student hmem hrun => hids ⟨student, hmem, hrun⟩, hslots⟩
      cases hlocate : locate (Student.hasId userId) records with
      | none =>
        refine absurd (fun student hfind => ?_) hslots
        cases (locate_eq_none.mp hlocate).symm.trans hfind
      | some found =>
        have hfind := find?_of_locate (i := found.1) (r := found.2) hlocate
        have hnone : d.execute (slotLines found.2) = none :=
          execute_slotLines_none d fun hall => hslots fun student hstudent => by
            cases hfind.symm.trans hstudent
            exact hall
        show d.execute (slotLines found.2 >>= _) = none
        rw [execute, bind_eq, execute_bind, ← execute, hnone]
        rfl

/-- The answer to the request of a view is what its function returns, as far as it fits. -/
theorem execute_request {text : CString}
    (h : d.execute (view.program userId) = some (some text, d)) :
    d.execute (view.request.program userId) = some (respond text, d) := by
  cases view <;> exact execute_bind_of h _

/-- The client gets the text that the function of the view builds, which is the text of the
view. -/
def Complete (d : Disk) (userId : CString) (view : View) (records : List view.file.Record) : Prop :=
  ∃ text, d.execute (view.program userId) = some (some text, d) ∧
    text = view.text userId records ∧
    d.execute ((view.choice.1.menu.request view.choice.2 []).program userId) = some (text, d)

/-- For every content of the files and every user, the client gets the whole text of a view if and
only if the strings that it compares and prints end within their fields, and its header and its
lines take at most 1023 bytes. -/
theorem complete_iff {records : List view.file.Record}
    (h : (d.file view.file).content = some records) :
    d.Complete userId view records ↔
      view.Legible userId records ∧ view.size userId records ≤ 1023 := by
  by_cases hread : view.Legible userId records
  · have hview : d.execute (view.program userId) = _ := execute_view h hread
    have hrequest := execute_request hview
    rw [Complete, View.request_choice, ← View.length_text, ← respond_eq_iff,
      and_iff_right hread]
    constructor
    · rintro ⟨text, -, rfl, htext⟩
      exact (Prod.mk.inj (Option.some.inj (hrequest.symm.trans htext))).1
    · intro hfits
      exact ⟨_, hview, rfl, by rw [hrequest, hfits]⟩
  · refine iff_of_false ?_ fun hlegible => hread hlegible.1
    rintro ⟨text, hview, -⟩
    cases (execute_view_none h hread).symm.trans hview

/-- The files of a server with this many students. -/
def withStudents (n : Nat) : Disk :=
  { empty with students :=
      NamedFile.missing.rename (.replicate n (newStudent (.ofString "s1") (.ofString "John"))) }

/-- The line of one student reaches the administrator. -/
theorem oneStudent_complete : (withStudents 1).Complete (.ofString "admin1") .students
    [newStudent (.ofString "s1") (.ofString "John")] :=
  (complete_iff rfl).mpr ⟨show ∀ student ∈ [newStudent (.ofString "s1") (.ofString "John")],
    student.id.Terminated ∧ student.name.Terminated by decide +kernel, by decide +kernel⟩

/-- Of the lines of forty students some do not. -/
theorem fortyStudents_not_complete : ¬ ∀ (d : Disk) (userId : CString) (view : View)
    (records : List view.file.Record), (d.file view.file).content = some records →
      d.Complete userId view records := by
  intro h
  obtain ⟨text, hview, rfl, hanswer⟩ := h (withStudents 40) (.ofString "admin1") .students
    (.replicate 40 (newStudent (.ofString "s1") (.ofString "John"))) rfl
  rw [View.request_choice, execute_request hview] at hanswer
  have hfits := respond_eq_iff.mp (Prod.mk.inj (Option.some.inj hanswer)).1
  rw [View.length_text] at hfits
  revert hfits
  decide +kernel

end Disk

end AcademiaCr.Academia
