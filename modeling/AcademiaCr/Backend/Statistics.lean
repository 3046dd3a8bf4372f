import Mathlib.Algebra.Order.Group.Int
import AcademiaCr.Backend.EnrolmentCounts

/-!
# Statistics

`GET /api/admin/statistics` adds up the capacities and the enrolments of all courses in
variables of type `int`. A capacity can be any positive `int` and there can be any number of
courses, so the sum of the capacities can leave the type; the enrolments are at most the
capacities.

## Main definitions

- `Totals`, `totals`: the two accumulators and the loop
- `AdminController.getStatistics`: the handler, without an answer when a sum overflows
- `TotalsExact`: the answer has the mathematical sums, and no partial sum overflows
- `totalsExact_iff`: when it does
-/

namespace AcademiaCr.Backend

open CheckedSum Transition

/-! ## The handler -/

structure Totals where
  capacity : Int := 0
  enrolled : Int := 0
  deriving DecidableEq, Repr

/-- The body of the loop over the courses. -/
def Totals.add (t : Totals) (c : Course) : Option Totals := do
  let capacity ← addInt t.capacity c.capacity
  let enrolled ← addInt t.enrolled c.enrolledCount
  return { capacity, enrolled }

def totals (courses : List Course) : Option Totals := courses.foldlM Totals.add {}

/-- The integral part of `capacity > 0 ? enrolled * 100.0 / capacity : 0.0`. -/
def utilization (capacity enrolled : Int) : Json :=
  .float (if capacity > 0 then (enrolled * 100).tdiv capacity else 0)

def courseUtilization (c : Course) : Json :=
  .obj [("course_code", .str c.courseCode), ("course_name", .str c.courseName),
    ("capacity", .int c.capacity), ("enrolled", .int c.enrolledCount),
    ("utilization", utilization c.capacity c.enrolledCount)]

namespace AdminController

/-- `GET /api/admin/statistics`. After an overflow there is no defined answer. -/
def getStatistics (authHeader : String) : SqlExcept (Option HttpResponse) := do
  match ← authenticateRequest authHeader with
  | none => return errorResponse "Admin access required" 403
  | some user =>
    if user.role ≠ .admin then return errorResponse "Admin access required" 403
    else
      let users ← UserRepository.count
      let students ← UserRepository.countByRole .student
      let faculty ← UserRepository.countByRole .faculty
      let admins ← UserRepository.countByRole .admin
      let courseCount ← CourseRepository.count
      let registrations ← RegistrationRepository.countActive
      let courses ← CourseRepository.findAll
      return (totals courses).map fun t =>
        let stats := statistics users students faculty admins courseCount registrations courses t
        successResponse 200 (some stats) "Success"
where
  statistics (users students faculty admins courseCount registrations : Int)
      (courses : List Course) (t : Totals) : Json :=
    .obj [("total_users", .int users), ("total_students", .int students),
      ("total_faculty", .int faculty), ("total_admins", .int admins),
      ("total_courses", .int courseCount), ("total_registrations", .int registrations),
      ("course_utilization", .arr (courses.map courseUtilization)),
      ("overall_capacity", .int t.capacity), ("overall_enrolled", .int t.enrolled),
      ("overall_utilization", utilization t.capacity t.enrolled)]

end AdminController

/-! ## The loop -/

/-- Both accumulators are checked sums. -/
theorem foldlM_add (courses : List Course) (t : Totals) :
    courses.foldlM Totals.add t =
      (checkedSum (fun n => columnInt n = n) t.capacity (courses.map (·.capacity))).bind fun c =>
        (checkedSum (fun n => columnInt n = n) t.enrolled
          (courses.map (·.enrolledCount))).map fun e => ⟨c, e⟩ := by
  induction courses generalizing t with
  | nil => rfl
  | cons course courses ih =>
    rw [List.foldlM_cons, List.map_cons, List.map_cons, checkedSum_cons, checkedSum_cons]
    simp only [Totals.add, addInt]
    split
    · split
      · exact ih _
      · simp
    · rfl

/-- The loop yields the sums if and only if every partial sum fits an `int`. -/
theorem totals_eq_some_iff {courses : List Course} {t : Totals} :
    totals courses = some t ↔
      (courses.map (·.capacity)).sum = t.capacity ∧
      (courses.map (·.enrolledCount)).sum = t.enrolled ∧ ∀ k < courses.length,
        columnInt ((courses.map (·.capacity)).take (k + 1)).sum =
          ((courses.map (·.capacity)).take (k + 1)).sum ∧
        columnInt ((courses.map (·.enrolledCount)).take (k + 1)).sum =
          ((courses.map (·.enrolledCount)).take (k + 1)).sum := by
  rw [totals, foldlM_add]
  simp only [Option.bind_eq_some_iff, Option.map_eq_some_iff, checkedSum_eq_some_iff, zero_add,
    List.length_map]
  constructor
  · rintro ⟨c, ⟨hc, hcaps⟩, e, ⟨he, henrolled⟩, rfl⟩
    exact ⟨hc, he, fun k hk => ⟨hcaps k hk, henrolled k hk⟩⟩
  · rintro ⟨hc, he, hfit⟩
    exact ⟨t.capacity, ⟨hc, fun k hk => (hfit k hk).1⟩, t.enrolled,
      ⟨he, fun k hk => (hfit k hk).2⟩, rfl⟩

/-! ## The answer -/

namespace Db

/-- The seats of all courses, and how many of them are taken. -/
def capacitySum (db : Db) : Int := (db.courses.map (·.capacity)).sum

def enrolledSum (db : Db) : Int := (db.courses.map fun row => (db.active row.id : Int)).sum

end Db

/-- The answer to an administrator has the sums over all courses, and every partial sum on
the way is an `int`. -/
structure TotalsExact (now : Int) (authHeader : String) (conn : Conn) : Prop where
  answer : ∃ stats, (conn.runExcept now (AdminController.getStatistics authHeader)).1 =
      .ok (some (successResponse 200 (some stats) "Success")) ∧
    stats.find? "overall_capacity" = some (.int conn.db.capacitySum) ∧
    stats.find? "overall_enrolled" = some (.int conn.db.enrolledSum)
  representable : ∀ k,
    columnInt (((conn.result now CourseRepository.findAll).map (·.capacity)).take k).sum =
      (((conn.result now CourseRepository.findAll).map (·.capacity)).take k).sum ∧
    columnInt (((conn.result now CourseRepository.findAll).map (·.enrolledCount)).take k).sum =
      (((conn.result now CourseRepository.findAll).map (·.enrolledCount)).take k).sum

section

variable {now : Int} {conn : Conn} {authHeader : String} {user : User}

theorem runExcept_getStatistics (hauth : Authenticates now conn authHeader user)
    (hrole : user.role = .admin) : ∃ stats : Totals → Json,
      (∀ t, (stats t).find? "overall_capacity" = some (.int t.capacity) ∧
        (stats t).find? "overall_enrolled" = some (.int t.enrolled)) ∧
      (conn.runExcept now (AdminController.getStatistics authHeader)).1 =
        .ok ((totals (conn.result now CourseRepository.findAll)).map fun t =>
          successResponse 200 (some (stats t)) "Success") := by
  refine ⟨_, fun t => ?_, by
    simp only [AdminController.getStatistics, Conn.runExcept_bind, hauth.run, hrole, ne_eq,
      not_true, if_false, Conn.runExcept_liftM, Conn.runExcept_pure]
    rfl⟩
  exact ⟨rfl, rfl⟩

theorem capacities_perm (now : Int) (hv : conn.db.Valid) :
    ((conn.result now CourseRepository.findAll).map (·.capacity)).Perm
      (conn.db.courses.map (·.capacity)) := by
  refine ((Db.perm_selectCourses hv fun _ => true).map (·.capacity)).trans ?_
  rw [List.filter_true, List.map_map]
  exact List.Perm.refl _

theorem enrolments_perm (now : Int) (hv : conn.db.Valid) :
    ((conn.result now CourseRepository.findAll).map (·.enrolledCount)).Perm
      (conn.db.courses.map fun row => (conn.db.active row.id : Int)) := by
  refine ((Db.perm_selectCourses hv fun _ => true).map (·.enrolledCount)).trans ?_
  rw [List.filter_true, List.map_map]
  exact List.Perm.refl _

/-- Partial sums of numbers that are not negative fit an `int` if the whole sum does. -/
theorem columnInt_sum_take {ns : List Int} (hns : ∀ n ∈ ns, 0 ≤ n) (hsum : ns.sum < 2147483648)
    (k : Nat) : columnInt (ns.take k).sum = (ns.take k).sum := by
  have hle := sum_take_le hns k
  have hpos := sum_take_nonneg hns k
  rw [columnInt_eq_self_iff]
  omega

theorem TotalsExact.fit (hv : conn.db.Valid) (h : TotalsExact now authHeader conn) :
    conn.db.capacitySum < 2147483648 := by
  obtain ⟨hcap, -⟩ := h.representable (conn.result now CourseRepository.findAll).length
  rw [← List.length_map (f := Course.capacity), List.take_length, (capacities_perm _ hv).sum_eq]
    at hcap
  exact (columnInt_eq_self_iff.mp hcap).2

theorem totalsExact_of_fit (hs : Sound conn) (hauth : Authenticates now conn authHeader user)
    (hrole : user.role = .admin) (h : conn.db.capacitySum < 2147483648) :
    TotalsExact now authHeader conn := by
  have hcaps : ∀ n ∈ (conn.result now CourseRepository.findAll).map (·.capacity), 0 ≤ n := by
    intro n hn
    obtain ⟨row, hrow, rfl⟩ := List.mem_map.mp ((capacities_perm _ hs.valid).mem_iff.mp hn)
    exact Int.le_of_lt (hs.valid.capacity row hrow)
  have henrolled : ∀ n ∈ (conn.result now CourseRepository.findAll).map (·.enrolledCount),
      0 ≤ n := by
    intro n hn
    obtain ⟨row, -, rfl⟩ := List.mem_map.mp ((enrolments_perm _ hs.valid).mem_iff.mp hn)
    exact Int.natCast_nonneg _
  have hle : conn.db.enrolledSum ≤ conn.db.capacitySum := List.sum_le_sum hs.seats
  have hcapSum := (capacities_perm now hs.valid).sum_eq
  have hseatSum := (enrolments_perm now hs.valid).sum_eq
  have hcapFit := columnInt_sum_take hcaps (hcapSum.trans_lt h)
  have hseatFit := columnInt_sum_take henrolled (hseatSum.trans_lt (lt_of_le_of_lt hle h))
  refine ⟨?_, fun k => ⟨hcapFit k, hseatFit k⟩⟩
  have htotals : totals (conn.result now CourseRepository.findAll) =
      some ⟨conn.db.capacitySum, conn.db.enrolledSum⟩ :=
    totals_eq_some_iff.mpr ⟨hcapSum, hseatSum, fun k _ => ⟨hcapFit (k + 1), hseatFit (k + 1)⟩⟩
  obtain ⟨stats, hstats, hrun⟩ := runExcept_getStatistics hauth hrole
  exact ⟨stats ⟨conn.db.capacitySum, conn.db.enrolledSum⟩, by rw [hrun, htotals]; rfl,
    (hstats _).1, (hstats _).2⟩

end

/-- In a reachable state an administrator gets the sums if and only if the capacities of all
courses together fit an `int`. -/
theorem totalsExact_iff {s : Api} (h : Reachable s) {now : Int} {authHeader : String}
    {user : User} (hauth : Authenticates now s.conn authHeader user) (hrole : user.role = .admin) :
    TotalsExact now authHeader s.conn ↔ s.conn.db.capacitySum < 2147483648 :=
  ⟨TotalsExact.fit h.sound.valid, totalsExact_of_fit h.sound hauth hrole⟩

/-! ## The seeded server -/

theorem totalsExact_start : TotalsExact 0 "Bearer a11ce" adminLoggedIn.conn :=
  (totalsExact_iff adminLoggedIn_reachable adminLoggedIn_authenticates rfl).mpr
    (by decide +kernel)

/-- The administrator's update of the course `CS301` (course 1) to the largest capacity. -/
def setCapacity : Endpoint :=
  .putCourse 1 (some (.obj [("course_name", .str "Operating Systems"), ("credits", .int 4),
    ("faculty_id", .int 2), ("capacity", .int 2147483647)]))

/-- The server after that update. -/
def afterSetCapacity : Api :=
  ⟨(ApiCall.request "Bearer a11ce" setCapacity).run 0 adminLoggedIn.conn, 0⟩

theorem afterSetCapacity_reachable : Reachable afterSetCapacity := by
  obtain ⟨seed, clock, history, hr⟩ := adminLoggedIn_reachable
  exact ⟨seed, clock, _, hr.snoc (l := (.request "Bearer a11ce" setCapacity, 0)) rfl⟩

/-- The seats of the other courses overflow the sum. -/
theorem largest_capacity_overflows : ¬ ∀ (s : Api) (now : Int) (authHeader : String) (user : User),
    Reachable s → Authenticates now s.conn authHeader user → user.role = .admin →
      TotalsExact now authHeader s.conn := by
  intro h
  obtain ⟨hauth, hsum⟩ :
      Authenticates 0 afterSetCapacity.conn "Bearer a11ce" systemAdministrator ∧
        afterSetCapacity.conn.db.capacitySum = 2147483932 := by
    unfold Authenticates
    decide +kernel
  have hfit := (h _ 0 _ _ afterSetCapacity_reachable hauth rfl).fit
    afterSetCapacity_reachable.sound.valid
  omega

end AcademiaCr.Backend
