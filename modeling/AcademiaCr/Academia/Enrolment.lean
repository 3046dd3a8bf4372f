import Mathlib.Data.List.Perm.Basic
import AcademiaCr.Academia.Calls

/-!
# Rosters and slots

The two ways in which an enrolment is stored: the first `enrolled_count` entries of the roster
of a course, and the slots of a student that are not empty. Each edit of the code is stated as
an edit of these lists of strings.

## Main definitions

- `Course.roster`: the students in the roster, `Course.InRange`: the roster is within the array
- `Student.listed`: the courses in the slots
- `roster_enroll`, `roster_shift`, `roster_resize`: what the code does with a roster
- `listed_enroll`, `listed_unenroll`, `listed_clear`: what the code does with the slots
-/

namespace AcademiaCr.Academia

open CLang RecordFile

/-! ## Rosters -/

/-- The first `enrolled_count` entries of the array. -/
def Course.entries (course : Course) : List Id :=
  course.enrolledStudents.toList.take course.enrolledCount.toNat

/-- The first `enrolled_count` entries of the roster. -/
def Course.roster (course : Course) : List CString :=
  (course.enrolledStudents.toList.take course.enrolledCount.toNat).map CArray.str

/-- `enrolled_count` is between 0 and `MAX_USERS`. -/
def Course.InRange (course : Course) : Prop :=
  0 ≤ course.enrolledCount ∧ course.enrolledCount ≤ maxUsers

section Roster

variable {course : Course} {studentId : CString}

theorem Course.InRange.length_roster (h : course.InRange) :
    (course.roster.length : Int) = course.enrolledCount := by
  obtain ⟨h₀, hmax⟩ := h
  rw [roster, List.length_map, List.length_take, course.enrolledStudents.length_toList]
  omega

/-- The scan for a student in the roster leaves an entry or finds the first one of the student. -/
theorem search_roster (h : course.InRange) (studentId : CString) :
    course.enrolledStudents.search (strcmpEntry studentId) 0 course.enrolledCount.toNat =
      if ∃ entry ∈ course.entries, entry.Overrun studentId then none
      else some ((course.roster.findIdx? (· = studentId)).map fun i : Nat => (i : Int)) := by
  have hle : 0 + course.enrolledCount.toNat ≤ maxUsers := by
    have hmax := h.2
    omega
  have hsearch := course.enrolledStudents.search_eq (p := strcmpEntry studentId) hle
  rw [List.drop_zero, locate?_entry] at hsearch
  refine hsearch.trans ?_
  by_cases hover : ∃ entry ∈ course.entries, entry.Overrun studentId
  · rw [if_pos hover]
    exact congrArg (Option.map _) (if_pos hover)
  · rw [if_neg hover, Course.roster, List.findIdx?_map]
    refine (congrArg (Option.map _) (if_neg hover)).trans (congrArg some ?_)
    have hindex := map_fst_locate (entryIs studentId) course.entries
    refine Eq.trans ?_ (congrArg (Option.map fun i : Nat => (i : Int)) hindex)
    rw [Option.map_map]
    refine congrArg (Option.map · _) (funext fun x => ?_)
    simp only [Function.comp_apply, Nat.zero_add]

theorem search_roster_of_within (h : course.InRange)
    (hentries : ∀ entry ∈ course.entries, ¬ entry.Overrun studentId) :
    course.enrolledStudents.search (strcmpEntry studentId) 0 course.enrolledCount.toNat =
      some ((course.roster.findIdx? (· = studentId)).map fun i : Nat => (i : Int)) := by
  rw [search_roster h, if_neg]
  rintro ⟨entry, hentry, hover⟩
  exact hentries entry hentry hover

/-- A scan that ends has found the first entry of the student. -/
theorem eq_of_search (h : course.InRange) {found : Option Int}
    (hsearch : course.enrolledStudents.search (strcmpEntry studentId) 0
      course.enrolledCount.toNat = some found) :
    found = (course.roster.findIdx? (· = studentId)).map fun i : Nat => (i : Int) := by
  rw [search_roster h] at hsearch
  split at hsearch
  · cases hsearch
  · exact (Option.some.inj hsearch).symm

theorem notMem_roster (h : course.InRange)
    (hsearch : course.enrolledStudents.search (strcmpEntry studentId) 0
      course.enrolledCount.toNat = some none) : studentId ∉ course.roster := by
  have hnone := Option.map_eq_none_iff.mp (eq_of_search h hsearch).symm
  intro hmem
  simpa using List.findIdx?_eq_none_iff.mp hnone studentId hmem

theorem roster_of_search (h : course.InRange) {i : Int}
    (hsearch : course.enrolledStudents.search (strcmpEntry studentId) 0
      course.enrolledCount.toNat = some (some i)) :
    ∃ k : Nat, i = k ∧ ∃ hk : k < course.roster.length, course.roster[k] = studentId := by
  obtain ⟨k, hfind, rfl⟩ := Option.map_eq_some_iff.mp (eq_of_search h hsearch).symm
  obtain ⟨hk, hentry, -⟩ := List.findIdx?_eq_some_iff_getElem.mp hfind
  exact ⟨k, rfl, hk, by simpa using hentry⟩

theorem roster_enroll {roster : CArray Id maxUsers} (hlength : studentId.length ≤ maxId)
    (hset : course.enrolledStudents.set? course.enrolledCount (strncpy maxId studentId) =
      some roster) :
    ({ course with
        enrolledStudents := roster,
        enrolledCount := course.enrolledCount + 1 } : Course).roster =
      course.roster ++ [studentId] := by
  obtain ⟨h₀, hmax, hlist⟩ := CArray.set?_eq_some hset
  have hcount : (course.enrolledCount + 1).toNat = course.enrolledCount.toNat + 1 := by omega
  have hlt : course.enrolledCount.toNat < course.enrolledStudents.toList.length := by
    rw [course.enrolledStudents.length_toList]
    omega
  have hget : (course.enrolledStudents.toList.set course.enrolledCount.toNat
      (strncpy maxId studentId))[course.enrolledCount.toNat]? =
      some (strncpy maxId studentId) := by
    rw [List.getElem?_set_self hlt]
  show ((roster.toList.take (course.enrolledCount + 1).toNat).map CArray.str) = _
  rw [hcount, hlist, List.take_add_one, List.take_set_of_le (Nat.le_refl _), hget,
    List.map_append]
  simp [Course.roster, str_strncpy hlength]

/-- Which entries the shift loop has moved before it gets to `j`. -/
def ShiftedTo (course : Course) (i : Nat) (j : Int) (roster : CArray Id maxUsers) : Prop :=
  ∀ k : Nat, roster.toList[k]?.map CArray.str =
    if i ≤ k ∧ (k : Int) < j then course.enrolledStudents.toList[k + 1]?.map CArray.str
    else course.enrolledStudents.toList[k]?.map CArray.str

/-- A round of the shift loop copies the next entry, if there is one. -/
theorem shift_eq (course : Course) (i : Int) :
    course.shift i = forLoop
      (fun j roster =>
        (roster.get? (j + 1)).bind fun next => roster.set? j (strncpy maxId next.str))
      i (course.enrolledCount - 1 - i).toNat course.enrolledStudents := by
  rw [Course.shift]
  congr 1
  funext j roster
  cases roster.get? (j + 1) <;> rfl

/-- The shift loop of `unenroll_course` removes the entry at position `i`. -/
theorem roster_shift (h : course.InRange) {i : Nat} (hi : i < course.roster.length) :
    ∃ roster, course.shift i = some roster ∧
      ({ course with
        enrolledStudents := roster,
        enrolledCount := course.enrolledCount - 1 } : Course).roster =
      course.roster.eraseIdx i := by
  have hlength := h.length_roster
  obtain ⟨h₀, hmax⟩ := h
  have hstart : ShiftedTo course i i course.enrolledStudents := by
    intro k
    rw [if_neg (by omega)]
  obtain ⟨roster, hloop, hend⟩ := forLoop_spec (I := ShiftedTo course i)
    (f := fun j roster =>
      (roster.get? (j + 1)).bind fun next => roster.set? j (strncpy maxId next.str))
    (k := (course.enrolledCount - 1 - i).toNat) hstart fun j a hj hlast ha => by
      obtain ⟨k, rfl⟩ := Int.eq_ofNat_of_zero_le (show 0 ≤ j by omega)
      have hk : k + 1 < a.toList.length := by
        rw [a.length_toList]
        omega
      have hnext : a.get? ((k : Int) + 1) = some (a.toList[k + 1]) := by
        rw [← Int.natCast_succ, CArray.get?_ofNat, List.getElem?_eq_getElem hk]
      obtain ⟨b, hset, hlist⟩ := a.exists_set? (i := k) (by omega)
        (strncpy maxId (a.toList[k + 1]).str)
      refine ⟨b, ?_, fun l => ?_⟩
      · rw [hnext]
        exact hset
      · -- position `k` gets the entry to its right, which has not been moved yet
        rw [hlist]
        by_cases hl : l = k
        · subst hl
          have hright := ha (l + 1)
          rw [if_neg (by omega), List.getElem?_eq_getElem hk] at hright
          rw [if_pos (by omega), List.getElem?_set_self (by omega), ← hright]
          simp
        · have hold := ha l
          rw [List.getElem?_set_ne (Ne.symm hl), hold]
          congr 1
          simp only [eq_iff_iff]
          omega
  refine ⟨roster, (shift_eq course i).trans hloop, List.ext_getElem? fun k => ?_⟩
  have hlast : (i : Int) + (course.enrolledCount - 1 - i).toNat = course.enrolledCount - 1 := by
    omega
  have hk := hend k
  rw [hlast] at hk
  have htake : (course.enrolledCount - 1).toNat = course.enrolledCount.toNat - 1 := by omega
  show ((roster.toList.take (course.enrolledCount - 1).toNat).map CArray.str)[k]? = _
  rw [List.getElem?_map, List.getElem?_take, List.getElem?_eraseIdx, htake]
  simp only [Course.roster, List.getElem?_map, List.getElem?_take]
  by_cases hlt : k < course.enrolledCount.toNat - 1
  · rw [if_pos hlt, hk]
    by_cases hik : i ≤ k
    · rw [if_pos (by omega), if_neg (by omega), if_pos (by omega)]
    · rw [if_neg (by omega), if_pos (by omega), if_pos (by omega)]
  · rw [if_neg hlt, if_neg (by omega), if_neg (by omega)]

/-- What `update_course` does with a roster: it keeps the first `newSeats` students. -/
theorem roster_resize (h : course.InRange) (newName : CString) {newSeats : Int}
    (h₀ : 0 ≤ newSeats) :
    ∃ course', course.resize newName newSeats = some course' ∧ course'.id = course.id ∧
      course'.totalSeats = newSeats ∧
      course'.enrolledCount = min course.enrolledCount newSeats ∧
      course'.roster = course.roster.take newSeats.toNat := by
  have hlength := h.length_roster
  obtain ⟨hcount, hmax⟩ := h
  by_cases hcut : course.enrolledCount > newSeats
  · -- the entries before `newSeats` stay as they are
    obtain ⟨roster, hloop, hkept⟩ := forLoop_spec
      (I := fun _ (a : CArray Id maxUsers) =>
        ∀ k < newSeats.toNat, a.toList[k]? = course.enrolledStudents.toList[k]?)
      (f := fun i roster => roster.set? i zeros) (i := newSeats)
      (k := (maxUsers - newSeats).toNat) (s := course.enrolledStudents) (fun _ _ => rfl)
      fun j a hj hlast ha => by
        obtain ⟨n, rfl⟩ := Int.eq_ofNat_of_zero_le (show 0 ≤ j by omega)
        obtain ⟨b, hset, hlist⟩ := a.exists_set? (i := n) (by omega) zeros
        refine ⟨b, hset, fun k hk => ?_⟩
        rw [hlist, List.getElem?_set_ne (by omega), ha k hk]
    have hresize : course.resize newName newSeats = some { course with
        name := strncpy maxName newName, totalSeats := newSeats, enrolledCount := newSeats,
        enrolledStudents := roster } := by
      rw [Course.resize, if_pos hcut, hloop, Option.map_some]
    refine ⟨_, hresize, rfl, rfl, ?_, ?_⟩
    · show newSeats = _
      omega
    · refine List.ext_getElem? fun k => ?_
      simp only [Course.roster, List.getElem?_map, List.getElem?_take]
      by_cases hk : k < newSeats.toNat
      · rw [if_pos hk, if_pos hk, if_pos (by omega), hkept k hk]
      · rw [if_neg hk, if_neg hk, Option.map_none]
  · have hresize : course.resize newName newSeats = some { course with
        name := strncpy maxName newName, totalSeats := newSeats } := by
      rw [Course.resize, if_neg hcut]
    refine ⟨_, hresize, rfl, rfl, ?_, ?_⟩
    · show course.enrolledCount = _
      omega
    · rw [List.take_of_length_le (by omega)]
      rfl

/-- A negative number of seats is the first index of the loop that clears the roster. -/
theorem resize_negative (h : course.InRange) (newName : CString) {newSeats : Int}
    (hneg : newSeats < 0) : course.resize newName newSeats = none := by
  have hcount := h.1
  have hsteps : (maxUsers - newSeats).toNat = (maxUsers - newSeats - 1).toNat + 1 := by omega
  have hset : course.enrolledStudents.set? newSeats zeros = none :=
    CArray.set?_eq_none (by omega) _
  rw [Course.resize, if_pos (by omega), hsteps, forLoop, hset]
  rfl

end Roster

/-! ## Slots -/

/-- The courses in the slots that are not empty. -/
def Student.listed (student : Student) : List CString :=
  (student.enrolledCourses.toList.map CArray.str).filter (· ≠ .empty)

section Slots

variable {student : Student} {courseId : CString}

theorem mem_listed (h : courseId ≠ .empty) :
    courseId ∈ student.listed ↔ student.holds courseId = true := by
  simp [Student.listed, Student.holds, entryIs, h]

theorem listed_newStudent (id name : CString) : (newStudent id name).listed = [] := by
  have hzero : ((newStudent id name).enrolledCourses.toList.map CArray.str) =
      List.replicate maxCourses .empty := by
    simp [newStudent, CArray.replicate]
  rw [Student.listed, hzero]
  simp

/-- `slot[0] == '\0'`. -/
theorem str_of_head? {slot : Id} (h : slot.toList.head? = some 0) : slot.str = .empty := by
  apply Subtype.ext
  show slot.toList.takeWhile _ = []
  cases hlist : slot.toList with
  | nil => rfl
  | cons b rest =>
    rw [hlist, List.head?_cons, Option.some.injEq] at h
    simp [h]

/-- The scan of the slots stops at the course, if there is one. -/
theorem scanSlots_fst {slots : List Id} {i : Nat} {emptySlot : Option Nat}
    {out : Bool × Option Nat} (hscan : scanSlots courseId slots i emptySlot = some out) :
    out.1 = slots.any (entryIs courseId) := by
  induction slots generalizing i emptySlot with
  | nil =>
    cases hscan
    rfl
  | cons slot rest ih =>
    obtain ⟨found, hfound, hscan⟩ := Option.bind_eq_some_iff.mp hscan
    rw [List.any_cons, entryIs_of_strcmp slot found hfound]
    cases found with
    | true =>
      cases hscan
      rfl
    | false => exact ih hscan

/-- The scan that does not stop finds the first empty slot. -/
theorem scanSlots_snd {slots : List Id} {i : Nat} {emptySlot : Option Nat}
    {out : Bool × Option Nat} (hscan : scanSlots courseId slots i emptySlot = some out)
    (h : slots.any (entryIs courseId) = false) :
    out.2 =
      emptySlot.or ((slots.findIdx? fun slot => slot.toList.head? = some 0).map (i + ·)) := by
  induction slots generalizing i emptySlot with
  | nil =>
    cases hscan
    simp
  | cons slot rest ih =>
    rw [List.any_cons, Bool.or_eq_false_iff] at h
    obtain ⟨found, hfound, hscan⟩ := Option.bind_eq_some_iff.mp hscan
    obtain rfl : found = false := (entryIs_of_strcmp slot found hfound).symm.trans h.1
    rw [ih hscan h.2, List.findIdx?_cons]
    by_cases hempty : slot.toList.head? = some 0
    · cases emptySlot <;> simp [hempty]
    · simp only [hempty, and_false, if_false, decide_false, Bool.false_eq_true, Option.map_map]
      refine congrArg (emptySlot.or) (congrArg (Option.map · _) (funext fun j => ?_))
      simp only [Function.comp_apply]
      omega

theorem exists_scanSlots {slots : List Id} (hreads : ∀ slot ∈ slots, ¬ slot.Overrun courseId)
    (i : Nat) (emptySlot : Option Nat) :
    ∃ out, scanSlots courseId slots i emptySlot = some out := by
  induction slots generalizing i emptySlot with
  | nil => exact ⟨_, rfl⟩
  | cons slot rest ih =>
    have hcompare : strcmpEntry courseId slot = _ :=
      CArray.strcmp_of_not_overrun (hreads slot List.mem_cons_self)
    rw [scanSlots, hcompare, Option.bind_some]
    split
    · exact ⟨_, rfl⟩
    · exact ih (fun other hother => hreads other (List.mem_cons_of_mem _ hother)) _ _

/-- A scan that does not stop has found the first empty slot. -/
theorem of_scanSlots {student : Student} {emptySlot : Nat}
    (hscan : scanSlots courseId student.enrolledCourses.toList 0 none =
      some (false, some emptySlot)) :
    student.holds courseId = false ∧
      (student.enrolledCourses.toList.findIdx? fun slot => slot.toList.head? = some 0) =
        some emptySlot := by
  have hholds : student.holds courseId = false := (scanSlots_fst hscan).symm
  have hempty := scanSlots_snd hscan hholds
  exact ⟨hholds, by simpa using hempty.symm⟩

/-- Another content for one slot. -/
theorem listed_set {slots : CArray Id maxCourses} {i : Nat} {slot : Id}
    (hset : student.enrolledCourses.set? i slot = some slots) {old : Id}
    (hold : student.enrolledCourses.toList[i]? = some old) :
    ∃ rest, student.listed.Perm (([old.str] ++ rest).filter (· ≠ .empty)) ∧
      ({ student with enrolledCourses := slots } : Student).listed.Perm
        (([slot.str] ++ rest).filter (· ≠ .empty)) := by
  obtain ⟨hi, hold⟩ := List.getElem?_eq_some_iff.mp hold
  obtain ⟨-, -, hlist⟩ := CArray.set?_eq_some hset
  rw [Int.toNat_natCast] at hlist
  refine ⟨(student.enrolledCourses.toList.eraseIdx i).map CArray.str, ?_, ?_⟩
  · have hperm := (List.getElem_cons_eraseIdx_perm hi).symm
    rw [hold] at hperm
    exact (hperm.map CArray.str).filter _
  · have hperm := List.set_perm_cons_eraseIdx hi slot
    rw [← hlist] at hperm
    exact (hperm.map CArray.str).filter _

/-- The course is put into an empty slot. -/
theorem listed_enroll (hlength : courseId.length ≤ maxId) (hne : courseId ≠ .empty)
    {slots : CArray Id maxCourses} {i : Nat}
    (hset : student.enrolledCourses.set? i (strncpy maxId courseId) = some slots)
    (hempty : (student.enrolledCourses.toList.findIdx? fun slot => slot.toList.head? = some 0) =
      some i) :
    ({ student with enrolledCourses := slots } : Student).listed.Perm
      (courseId :: student.listed) := by
  obtain ⟨hi, hhead, -⟩ := List.findIdx?_eq_some_iff_getElem.mp hempty
  have hold : (student.enrolledCourses.toList[i]).str = .empty :=
    str_of_head? (by simpa using hhead)
  obtain ⟨rest, hlisted, hlisted'⟩ := listed_set hset (List.getElem?_eq_getElem hi)
  rw [str_strncpy hlength] at hlisted'
  rw [hold] at hlisted
  simp only [List.cons_append, List.nil_append, ne_eq, hne, not_false_eq_true, decide_true,
    List.filter_cons_of_pos] at hlisted'
  simp only [List.cons_append, List.nil_append, ne_eq, not_true_eq_false, decide_false,
    Bool.false_eq_true, not_false_eq_true, List.filter_cons_of_neg] at hlisted
  exact hlisted'.trans (hlisted.symm.cons _)

/-- The first slot with the course is cleared. -/
theorem listed_unenroll (hne : courseId ≠ .empty) {slots : CArray Id maxCourses} {i : Nat}
    (hset : student.enrolledCourses.set? i zeros = some slots)
    (hfound : student.enrolledCourses.toList.findIdx? (entryIs courseId) = some i) :
    student.listed.Perm
      (courseId :: ({ student with enrolledCourses := slots } : Student).listed) := by
  obtain ⟨hi, hslot, -⟩ := List.findIdx?_eq_some_iff_getElem.mp hfound
  have hold : (student.enrolledCourses.toList[i]).str = courseId := by simpa [entryIs] using hslot
  obtain ⟨rest, hlisted, hlisted'⟩ := listed_set hset (List.getElem?_eq_getElem hi)
  rw [hold] at hlisted
  rw [str_zeros] at hlisted'
  simp only [List.cons_append, List.nil_append, ne_eq, hne, not_false_eq_true, decide_true,
    List.filter_cons_of_pos] at hlisted
  simp only [List.cons_append, List.nil_append, ne_eq, not_true_eq_false, decide_false,
    Bool.false_eq_true, not_false_eq_true, List.filter_cons_of_neg] at hlisted'
  exact hlisted.trans (hlisted'.symm.cons _)

/-- Clearing an empty slot changes nothing. -/
theorem listed_unenroll_empty {slots : CArray Id maxCourses} {i : Nat}
    (hset : student.enrolledCourses.set? i zeros = some slots)
    (hfound : student.enrolledCourses.toList.findIdx? (entryIs .empty) = some i) :
    ({ student with enrolledCourses := slots } : Student).listed.Perm student.listed := by
  obtain ⟨hi, hslot, -⟩ := List.findIdx?_eq_some_iff_getElem.mp hfound
  have hold : (student.enrolledCourses.toList[i]).str = .empty := by simpa [entryIs] using hslot
  obtain ⟨rest, hlisted, hlisted'⟩ := listed_set hset (List.getElem?_eq_getElem hi)
  rw [hold] at hlisted
  rw [str_zeros] at hlisted'
  exact hlisted'.trans hlisted.symm

/-- Clearing a slot leaves no course twice, whichever id the slot held. -/
theorem nodup_listed_unenroll (h : student.listed.Nodup) {slots : CArray Id maxCourses} {i : Nat}
    (hset : student.enrolledCourses.set? i zeros = some slots)
    (hfound : student.enrolledCourses.toList.findIdx? (entryIs courseId) = some i) :
    ({ student with enrolledCourses := slots } : Student).listed.Nodup := by
  by_cases hne : courseId = .empty
  · exact (listed_unenroll_empty hset (hne ▸ hfound)).nodup_iff.mpr h
  · rw [(listed_unenroll hne hset hfound).nodup_iff] at h
    exact (List.nodup_cons.mp h).2

/-- All slots with the course are cleared. -/
theorem listed_clear (hne : courseId ≠ .empty) :
    (student.clear courseId).listed = student.listed.filter (· ≠ courseId) := by
  have hcleared : ∀ slots : List Id,
      ((slots.map fun slot => if slot.str = courseId then zeros else slot).map
        CArray.str).filter (· ≠ .empty) =
      ((slots.map CArray.str).filter (· ≠ .empty)).filter (· ≠ courseId) := fun slots => by
    induction slots with
    | nil => rfl
    | cons slot rest ih =>
      simp only [List.map_cons]
      by_cases h : slot.str = courseId
      · rw [if_pos h, str_zeros, List.filter_cons_of_neg (by simp), ih, h,
          List.filter_cons_of_pos (by simpa using hne), List.filter_cons_of_neg (by simp)]
      · rw [if_neg h]
        by_cases hempty : slot.str = .empty
        · rw [List.filter_cons_of_neg (by simpa using hempty),
            List.filter_cons_of_neg (by simpa using hempty), ih]
        · rw [List.filter_cons_of_pos (by simpa using hempty),
            List.filter_cons_of_pos (by simpa using hempty),
            List.filter_cons_of_pos (by simpa using h), ih]
  exact hcleared student.enrolledCourses.toList

end Slots

end AcademiaCr.Academia
