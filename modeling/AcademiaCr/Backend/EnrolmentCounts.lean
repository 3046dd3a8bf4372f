import Mathlib.Algebra.BigOperators.Ring.Finset
import AcademiaCr.Backend.Selections

/-!
# Enrolment counts

The number of active registrations is reported by nine functions, some of which count rows
and some of which join them with users and courses first. In reachable states they agree as
far as the numbers fit an `int`: `column_int` cuts the two totals, the one over all courses
and the credits of a student, whose summands `update_course` does not check.

## Main definitions

- `CountsAgree`: all reported numbers agree
- `CountsFit`: the totals fit an `int`
- `countsAgree_iff`: the second is what the first needs
-/

namespace AcademiaCr.Backend

open CheckedSum Transition

/-- What a program returns. -/
def Conn.result {α : Type} (now : Int) (conn : Conn) (p : Sql α) : α := (conn.run now p).1

/-- The course is in the list once, with the given number of registrations. -/
def ListedOnce (id n : Int) (courses : List Course) : Prop :=
  (courses.filter fun course => course.id = id).map (·.enrolledCount) = [n]

/-- Every function that reports a course reports the count of `get_enrolled_count`, which is
the length of the roster, and the totals are the sums of what is listed. -/
structure CountsAgree (now : Int) (conn : Conn) : Prop where
  byId : ∀ row ∈ conn.db.courses,
    ListedOnce row.id (conn.result now (CourseRepository.getEnrolledCount row.id))
      (conn.result now (CourseRepository.findById row.id)).toList
  byCode : ∀ row ∈ conn.db.courses,
    ListedOnce row.id (conn.result now (CourseRepository.getEnrolledCount row.id))
      (conn.result now (CourseRepository.findByCode row.courseCode)).toList
  all : ∀ row ∈ conn.db.courses,
    ListedOnce row.id (conn.result now (CourseRepository.getEnrolledCount row.id))
      (conn.result now CourseRepository.findAll)
  byFaculty : ∀ row ∈ conn.db.courses, ∀ f, row.facultyId = some f →
    ListedOnce row.id (conn.result now (CourseRepository.getEnrolledCount row.id))
      (conn.result now (CourseRepository.findByFaculty f))
  roster : ∀ c, ((conn.result now (RegistrationRepository.findByCourse c)).length : Int) =
    conn.result now (CourseRepository.getEnrolledCount c)
  total : ((conn.result now CourseRepository.findAll).map (·.enrolledCount)).sum =
    conn.result now RegistrationRepository.countActive
  student : ∀ s, ((conn.result now (RegistrationRepository.findByStudent s)).length : Int) =
    conn.result now (RegistrationRepository.countByStudent s)
  credits : ∀ s, conn.result now (RegistrationRepository.totalCreditsForStudent s) =
    ((conn.result now (RegistrationRepository.findByStudent s)).map fun r =>
      ((conn.result now (CourseRepository.findById r.courseId)).map (·.credits)).getD 0).sum

/-! ## Sums in 32 and 64 bits -/

theorem columnInt_eq_self_iff {n : Int} :
    columnInt n = n ↔ -2147483648 ≤ n ∧ n < 2147483648 := by
  simp only [columnInt, Int.bmod]
  omega

theorem columnInt_columnInt (n : Int) : columnInt (columnInt n) = columnInt n := Int.bmod_bmod

/-- Fewer than 2^31 numbers of 32 bits have a sum of 64 bits. -/
theorem checkedSum_int64 {ns : List Int} (h : ∀ n ∈ ns, columnInt n = n) {sum : Int}
    (hsum : -9223372036854775808 + 2147483648 * (ns.length : Int) ≤ sum ∧
      sum < 9223372036854775808 - 2147483648 * (ns.length : Int)) :
    checkedSum (fun n => n.bmod (2 ^ 64) = n) sum ns = some (sum + ns.sum) := by
  induction ns generalizing sum with
  | nil => simp
  | cons n ns ih =>
    have hn := columnInt_eq_self_iff.mp (h n List.mem_cons_self)
    rw [List.length_cons] at hsum
    have hfits : (sum + n).bmod (2 ^ 64) = sum + n := by
      simp only [Int.bmod]
      omega
    rw [checkedSum_cons, if_pos hfits, ih (fun x hx => h x (List.mem_cons_of_mem _ hx)) (by omega),
      List.sum_cons, Int.add_assoc]

namespace Db

variable {db : Db}

/-- The credits of the courses that a student is registered for. -/
def creditSum (db : Db) (s : Int) : Int :=
  ((db.registrations.filter (RegistrationRow.activeOf s)).map fun r =>
    db.creditsFor r.courseId).sum

theorem columnInt_creditsFor (hc : db.Columns Storable) (c : Int) :
    columnInt (db.creditsFor c) = db.creditsFor c := by
  rw [creditsFor]
  cases hrow : db.findCourse c with
  | none => decide
  | some row => exact (hc row (findCourse_mem hrow)).2.2

/-- Every active registration is counted with its course. -/
theorem sum_active (hv : db.Valid) :
    (db.courses.map fun row => db.active row.id).sum =
      db.registrations.countP (·.status = "active") := by
  have hsum := Table.sum_countP_key hv.courseIds RegistrationRow.courseId
    (fun r => r.status = "active") db.registrations
  rw [List.map_map] at hsum
  have hleft : (db.courses.map fun row => db.active row.id) =
      db.courses.map ((fun k => db.registrations.countP fun r =>
        decide (r.courseId = k ∧ decide (r.status = "active") = true)) ∘ (·.id)) := by
    refine List.map_congr_left fun row _ => ?_
    simp only [active, Function.comp_apply, decide_eq_true_eq]
    rfl
  rw [hleft, hsum]
  refine List.countP_congr fun r hr => ?_
  have hmem : r.courseId ∈ db.courses.map (·.id) := List.mem_map.mpr (hv.course r hr)
  simp [hmem]

end Db

/-- The number of active registrations and the credits of every student fit an `int`. -/
structure CountsFit (db : Db) : Prop where
  active : db.registrations.countP (·.status = "active") < 2147483648
  credits : ∀ s, -2147483648 ≤ db.creditSum s ∧ db.creditSum s < 2147483648

namespace Db

variable {db : Db}

/-- A selection that a course meets lists it once. -/
theorem listedOnce_select (hv : db.Valid) {p : CourseRow × Option UserRow → Bool}
    {row : CourseRow} (hrow : row ∈ db.courses) (hp : p (row, db.owner row) = true) :
    ListedOnce row.id (db.active row.id) ((db.selectCourses p).map rowToCourse) := by
  obtain ⟨found, hfound, hone⟩ := Table.exists_partner hv.courseIds ⟨row, hrow, rfl⟩
  rw [Table.find?_key hv.courseIds hrow] at hfound
  cases hfound
  have hfilter : ((db.courses.filter fun r => p (r, db.owner r)).filter fun r => row.id = r.id) =
      [row] := by
    rw [List.filter_filter, List.filter_congr (fun _ _ => Bool.and_comm _ _),
      ← List.filter_filter, hone, List.filter_cons, if_pos hp]
    rfl
  refine List.perm_singleton.mp ((((perm_selectCourses hv p).filter _).map _).trans ?_)
  have hid : (fun r : CourseRow => decide ((db.course r).id = row.id)) =
      fun r => decide (row.id = r.id) := by
    funext r
    rw [decide_eq_decide]
    exact eq_comm
  rw [List.filter_map, Function.comp_def, hid, hfilter]
  exact List.Perm.refl _

/-- A record of the course is a list of its own. -/
theorem listedOnce_record {row : CourseRow} {found : Option CourseRow} (h : found = some row) :
    ListedOnce row.id (db.active row.id) (found.map db.course).toList := by
  have hid : (db.course row).id = row.id := rfl
  rw [h, ListedOnce, Option.map_some, Option.toList_some, List.filter_cons_of_pos (by simp [hid])]
  rfl

theorem length_filter_joined (hv : db.Valid) (p : RegistrationRow → Bool) :
    (db.joinedRegistrations.filter fun r => p r.row).length = db.registrations.countP p := by
  rw [← List.length_map (f := fun r : JoinedRegistration => r.row), map_row_filter hv,
    List.countP_eq_length_filter]

theorem total_eq (hv : db.Valid) :
    (((db.selectCourses fun _ => true).map rowToCourse).map (·.enrolledCount)).sum =
      (db.registrations.countP (·.status = "active") : Int) := by
  have hperm := (perm_selectCourses hv fun _ => true).map (·.enrolledCount)
  rw [hperm.sum_eq, List.map_map, List.filter_true, ← sum_active hv, Nat.cast_list_sum,
    List.map_map]
  rfl

/-- The credits of the courses in the list of a student. -/
theorem credits_eq (hv : db.Valid) (s : Int) :
    ((db.joinedRegistrations.filter fun r => r.row.activeOf s).map fun r =>
      db.creditsFor r.row.courseId).sum = db.creditSum s := by
  rw [creditSum, ← map_row_filter hv, List.map_map]
  rfl

end Db

/-! ## Reachable states -/

theorem countP_activeOf_le (db : Db) (s : Int) :
    db.registrations.countP (RegistrationRow.activeOf s) ≤
      db.registrations.countP (·.status = "active") := by
  refine List.countP_mono_left fun r _ hr => ?_
  simp only [RegistrationRow.activeOf, decide_eq_true_eq] at hr
  exact decide_eq_true hr.2

section

variable {now : Int} {conn : Conn}

theorem result_credits (hv : conn.db.Valid) (s : Int) :
    ((conn.result now (RegistrationRepository.findByStudent s)).map fun r =>
      ((conn.result now (CourseRepository.findById r.courseId)).map (·.credits)).getD 0).sum =
        conn.db.creditSum s := by
  rw [← Db.credits_eq hv]
  simp only [Conn.result, Conn.run_findByStudent, Conn.run_courseById, List.map_map,
    Function.comp_def, Option.map_map]
  rfl

theorem result_student (hv : conn.db.Valid) (s : Int) :
    (conn.result now (RegistrationRepository.findByStudent s)).length =
      conn.db.registrations.countP (RegistrationRow.activeOf s) := by
  rw [← Db.length_filter_joined hv, Conn.result, Conn.run_findByStudent, List.length_map]
  rfl

theorem result_roster (hv : conn.db.Valid) (c : Int) :
    (conn.result now (RegistrationRepository.findByCourse c)).length = conn.db.active c := by
  rw [Db.active, ← Db.length_filter_joined hv, Conn.result, Conn.run_findByCourse,
    List.length_map, (Table.orderBy_perm _ _).length_eq]
  rfl

/-- With few registrations and credits that fit, the sum of a student's credits is exact. -/
theorem result_totalCredits (hv : conn.db.Valid) (hc : conn.db.Columns Storable)
    (hfit : CountsFit conn.db) (s : Int) :
    conn.result now (RegistrationRepository.totalCreditsForStudent s) = conn.db.creditSum s := by
  have hcredits : ∀ n ∈ conn.db.creditsOf s, columnInt n = n := by
    intro n hn
    rw [Db.creditsOf_eq hv] at hn
    obtain ⟨r, -, rfl⟩ := List.mem_map.mp hn
    exact Db.columnInt_creditsFor hc _
  have hlength : (conn.db.creditsOf s).length ≤
      conn.db.registrations.countP (·.status = "active") := by
    rw [Db.creditsOf_eq hv, List.length_map, ← List.countP_eq_length_filter]
    exact countP_activeOf_le conn.db s
  have hfew := hfit.active
  rw [Conn.result, Conn.run_totalCreditsForStudent, sumInt64,
    checkedSum_int64 hcredits (by omega), Db.creditsOf_eq hv, Option.getD_some, Int.zero_add]
  exact columnInt_eq_self_iff.mpr (hfit.credits s)

end

/-- What agrees fits: a reported number is an `int`. -/
theorem CountsAgree.fit {now : Int} {conn : Conn} (hv : conn.db.Valid)
    (h : CountsAgree now conn) : CountsFit conn.db := by
  refine ⟨?_, fun student => ?_⟩
  · have htotal := h.total
    rw [Conn.result, Conn.result, Conn.run_findAll, Conn.run_countActive, Db.total_eq hv] at htotal
    dsimp only at htotal
    rw [eq_comm, columnInt_eq_self_iff] at htotal
    omega
  · have hcredits := h.credits student
    rw [result_credits hv, Conn.result, Conn.run_totalCreditsForStudent] at hcredits
    rw [← columnInt_eq_self_iff, ← hcredits]
    exact columnInt_columnInt _

theorem CountsFit.agree {now : Int} {conn : Conn} (hv : conn.db.Valid)
    (hc : conn.db.Columns Storable) (h : CountsFit conn.db) : CountsAgree now conn where
  byId row hrow := by
    have hfind : conn.db.findCourse row.id = some row := Table.find?_key hv.courseIds hrow
    rw [Conn.result, Conn.result, Conn.run_courseById, Conn.run_getEnrolledCount]
    exact Db.listedOnce_record hfind
  byCode row hrow := by
    have hfind : conn.db.courses.find? (·.courseCode = bindText row.courseCode) = some row := by
      have hcode : bindText row.courseCode = row.courseCode := (hc row hrow).1
      rw [hcode]
      exact Table.find?_key hv.courseCodes hrow
    rw [Conn.result, Conn.result, Conn.run_findByCode, Conn.run_getEnrolledCount]
    exact Db.listedOnce_record hfind
  all row hrow := by
    rw [Conn.result, Conn.result, Conn.run_findAll, Conn.run_getEnrolledCount]
    exact Db.listedOnce_select hv hrow rfl
  byFaculty row hrow f hf := by
    rw [Conn.result, Conn.result, Conn.run_findByFaculty, Conn.run_getEnrolledCount]
    exact Db.listedOnce_select hv hrow (decide_eq_true hf)
  roster c := by
    rw [result_roster hv]
    rfl
  total := by
    rw [Conn.result, Conn.result, Conn.run_findAll, Conn.run_countActive, Db.total_eq hv]
    have hfew := h.active
    rw [eq_comm, columnInt_eq_self_iff]
    omega
  student s := by
    have hle := countP_activeOf_le conn.db s
    have hfew := h.active
    rw [result_student hv, Conn.result, Conn.run_countByStudent, eq_comm, columnInt_eq_self_iff]
    omega
  credits s := by rw [result_credits hv, result_totalCredits hv hc h]

/-- In a reachable state all counts agree if and only if the number of active registrations
and the credits of every student fit an `int`. -/
theorem countsAgree_iff {s : Api} (h : Reachable s) (now : Int) :
    CountsAgree now s.conn ↔ CountsFit s.conn.db :=
  ⟨CountsAgree.fit h.sound.valid, CountsFit.agree h.sound.valid h.storable⟩

/-! ## The seeded server -/

/-- The five students of the seeded database have four courses at most. -/
theorem countsFit_start : CountsFit (Api.start true 0).conn.db := by
  refine ⟨by decide +kernel, fun s => ?_⟩
  have hstudents : ∀ s ∈ [5, 6, 7, 8, 9], -2147483648 ≤ (Api.start true 0).conn.db.creditSum s ∧
      (Api.start true 0).conn.db.creditSum s < 2147483648 := by decide +kernel
  have hrows : ∀ r ∈ (Api.start true 0).conn.db.registrations,
      r.studentId ∈ [5, 6, 7, 8, 9] := by decide +kernel
  by_cases hs : s ∈ [5, 6, 7, 8, 9]
  · exact hstudents s hs
  · have hnone : (Api.start true 0).conn.db.registrations.filter (RegistrationRow.activeOf s) =
        [] := by
      rw [List.filter_eq_nil_iff]
      intro r hr hactive
      simp only [RegistrationRow.activeOf, decide_eq_true_eq] at hactive
      exact hs (hactive.1 ▸ hrows r hr)
    rw [Db.creditSum, hnone]
    decide

theorem countsAgree_start : CountsAgree 0 (Api.start true 0).conn :=
  (countsAgree_iff ⟨true, 0, [], Run.start⟩ 0).mpr countsFit_start

/-- After an update of course 1 to the largest `int` as its credits, the credits of student 5,
who has two more courses, no longer fit. -/
theorem creditSum_cut : ¬ ∀ (s : Api) (now : Int), Reachable s → CountsAgree now s.conn := by
  intro h
  have hreach : Reachable (afterUpdate 2147483647) := ⟨_, _, _, updateHistory_run 2147483647⟩
  have hfit := ((h _ 0 hreach).fit hreach.sound.valid).credits 5
  have hsum : (afterUpdate 2147483647).conn.db.creditSum 5 = 2147483654 := by decide +kernel
  omega

end AcademiaCr.Backend
