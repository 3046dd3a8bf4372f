import AcademiaCr.Backend.Registration

/-!
# Rosters

What a registration or a drop does is determined by the roster of its course, and it
changes no other roster.

## Main definitions

- `Db.roster`: the students of a course with their status
- `Db.forCourse`: what a registration for the course depends on
- `Db.register_congr`, `Db.register_other`: both facts, and the same for `drop`
-/

namespace AcademiaCr.Backend

namespace Db

/-- The students of the course with the status of their registration. -/
def roster (db : Db) (c : Int) : List (Int × String) :=
  (db.registrations.filter fun r => r.courseId = c).map fun r => (r.studentId, r.status)

/-- What a registration for the course depends on. -/
def forCourse (c : Int) (db : Db) : List UserRow × List CourseRow × List (Int × String) :=
  (db.users, db.courses, db.roster c)

variable {db db' : Db} {c : Int}

/-- Rows of the course are counted on its roster. -/
theorem countP_roster {p : RegistrationRow → Bool} {q : Int × String → Bool}
    (hp : ∀ r, p r = (decide (r.courseId = c) && q (r.studentId, r.status))) (db : Db) :
    db.registrations.countP p = (db.roster c).countP q := by
  rw [roster, List.countP_map, List.countP_filter]
  refine List.countP_congr fun r _ => ?_
  simp only [hp, Function.comp_apply, Bool.and_comm]

theorem active_eq_roster (db : Db) (c : Int) :
    db.active c = (db.roster c).countP fun x => x.2 = "active" :=
  countP_roster (fun r => by simp [RegistrationRow.activeIn]) db

theorem enrolledIn_eq_roster (db : Db) (s c : Int) :
    db.enrolledIn s c = decide (0 < (db.roster c).countP fun x => x.1 = s ∧ x.2 = "active") := by
  rw [enrolledIn, countP_roster (c := c) (q := fun x => x.1 = s ∧ x.2 = "active") (fun r => ?_) db]
  grind [RegistrationRow.activePair]

theorem countP_dropped_eq_roster (db : Db) (s c : Int) :
    db.registrations.countP (RegistrationRow.droppedPair s c) =
      (db.roster c).countP fun x => x.1 = s ∧ x.2 = "dropped" :=
  countP_roster (fun r => by grind [RegistrationRow.droppedPair]) db

theorem all_not_ofPair_iff (db : Db) (s c : Int) :
    db.registrations.all (fun r => !r.ofPair s c) = true ↔ ∀ x ∈ db.roster c, x.1 ≠ s := by
  simp only [List.all_eq_true, roster, List.mem_map, List.mem_filter, RegistrationRow.ofPair,
    Bool.not_eq_true', decide_eq_false_iff_not, decide_eq_true_eq]
  constructor
  · rintro h x ⟨r, ⟨hr, hc⟩, rfl⟩ hs
    exact h r hr ⟨hs, hc⟩
  · rintro h r hr ⟨hs, hc⟩
    exact h _ ⟨r, ⟨hr, hc⟩, rfl⟩ hs

/-- Setting the status of rows of a course changes the roster of that course only. -/
theorem roster_setStatus {p : RegistrationRow → Bool} {q : Int × String → Bool}
    (hp : ∀ r, p r = (decide (r.courseId = c) && q (r.studentId, r.status))) (status : String)
    (db : Db) (k : Int) :
    ({ db with registrations :=
        Table.update p (RegistrationRow.setStatus status) db.registrations }.roster k) =
      if k = c then (db.roster c).map fun x => if q x then (x.1, status) else x
      else db.roster k := by
  have hsplit : db.registrations.map (fun r => if p r then r.setStatus status else r) =
      Table.update p (RegistrationRow.setStatus status) db.registrations := rfl
  have hcourse : ∀ r : RegistrationRow, (if p r then r.setStatus status else r).courseId =
      r.courseId := fun r => by split <;> rfl
  simp only [roster, ← hsplit, List.filter_map, Function.comp_def, hcourse, List.map_map]
  split
  · next hk =>
    subst hk
    refine List.map_congr_left fun r hr => ?_
    have hc : r.courseId = k := by simpa using (List.mem_filter.mp hr).2
    rw [hp, decide_eq_true hc, Bool.true_and]
    split <;> rfl
  · next hk =>
    refine List.map_congr_left fun r hr => ?_
    have hc : r.courseId ≠ c := by
      have hck : r.courseId = k := by simpa using (List.mem_filter.mp hr).2
      rw [hck]
      exact hk
    rw [hp, decide_eq_false hc, Bool.false_and]
    rfl

/-! ## Operations on one roster -/

variable {s k : Int}

theorem forCourse_congr (h : db.forCourse c = db'.forCourse c) :
    db.users = db'.users ∧ db.courses = db'.courses ∧ db.roster c = db'.roster c := by
  simpa only [forCourse, Prod.mk.injEq] using h

theorem forCourse_reactivated (db : Db) (s c k : Int) : (db.reactivated s c).forCourse k =
    (db.users, db.courses, if k = c then (db.roster c).map fun x =>
      if x.1 = s ∧ x.2 = "dropped" then (x.1, "active") else x else db.roster k) := by
  have hroster := roster_setStatus (p := RegistrationRow.droppedPair s c)
    (q := fun x => x.1 = s ∧ x.2 = "dropped") (c := c)
    (fun r => by grind [RegistrationRow.droppedPair]) "active" db k
  simp only [decide_eq_true_eq] at hroster
  simp only [forCourse, reactivated, hroster]

theorem forCourse_deactivated (db : Db) (s c k : Int) : (db.deactivated s c).forCourse k =
    (db.users, db.courses, if k = c then (db.roster c).map fun x =>
      if x.1 = s ∧ x.2 = "active" then (x.1, "dropped") else x else db.roster k) := by
  have hroster := roster_setStatus (p := RegistrationRow.activePair s c)
    (q := fun x => x.1 = s ∧ x.2 = "active") (c := c)
    (fun r => by grind [RegistrationRow.activePair]) "dropped" db k
  simp only [decide_eq_true_eq] at hroster
  simp only [forCourse, deactivated, hroster]

theorem forCourse_insertRegistration {a : Applied} (h : db.insertRegistration s c = some a)
    (k : Int) : a.db.forCourse k =
      (db.users, db.courses, db.roster k ++ if k = c then [(s, "active")] else []) := by
  simp only [insertRegistration] at h
  split at h
  · cases h
    simp only [forCourse, roster, List.filter_append, List.map_append]
    by_cases hk : k = c
    · simp [hk]
    · simp [hk, Ne.symm hk]
  · cases h

/-- Whether a row can be inserted, and what it adds, depends on the roster. -/
theorem insertRegistration_congr (h : db.forCourse c = db'.forCourse c) :
    (db.insertRegistration s c).map (fun a => a.db.forCourse c) =
      (db'.insertRegistration s c).map fun a => a.db.forCourse c := by
  obtain ⟨husers, hcourses, hroster⟩ := forCourse_congr h
  have hsome : (db.insertRegistration s c).isSome = (db'.insertRegistration s c).isSome := by
    simp only [insertRegistration, userExists, courseExists, all_not_ofPair_iff, husers,
      hcourses, hroster]
    split <;> rfl
  cases ha : db.insertRegistration s c with
  | none =>
    rw [ha, Option.isSome_none] at hsome
    have hnone : db'.insertRegistration s c = none := by simpa using hsome.symm
    rw [hnone]
  | some a =>
    rw [ha] at hsome
    obtain ⟨a', ha'⟩ := Option.isSome_iff_exists.mp hsome.symm
    rw [ha', Option.map_some, Option.map_some, forCourse_insertRegistration ha,
      forCourse_insertRegistration ha', husers, hcourses, hroster]

theorem activate_congr (h : db.forCourse c = db'.forCourse c) :
    (db.activate s c).map (fun out => out.2.forCourse c) =
      (db'.activate s c).map fun out => out.2.forCourse c := by
  obtain ⟨husers, hcourses, hroster⟩ := forCourse_congr h
  have hinsert := insertRegistration_congr (s := s) h
  simp only [activate, countP_dropped_eq_roster, hroster]
  split
  · simp only [Option.map_some, forCourse_reactivated, husers, hcourses, hroster]
  · simpa only [Option.map_map, Function.comp_def] using hinsert

theorem activate_other (hk : k ≠ c) {out : Int × Db} (h : db.activate s c = some out) :
    out.2.forCourse k = db.forCourse k := by
  simp only [activate] at h
  split at h
  · cases h
    rw [forCourse_reactivated, if_neg hk, forCourse]
  · obtain ⟨a, ha, rfl⟩ := Option.map_eq_some_iff.mp h
    rw [forCourse_insertRegistration ha, if_neg hk, List.append_nil, forCourse]

/-- Success and error text of a registration, and the roster after it, depend on the roster
before it. -/
theorem register_congr (h : db.forCourse c = db'.forCourse c) :
    ((db.register s c).1.success, (db.register s c).1.error, (db.register s c).2.forCourse c) =
      ((db'.register s c).1.success, (db'.register s c).1.error,
        (db'.register s c).2.forCourse c) := by
  obtain ⟨husers, hcourses, hroster⟩ := forCourse_congr h
  have hactivate := activate_congr (s := s) h
  have hfind : db.findCourse c = db'.findCourse c := by rw [findCourse, findCourse, hcourses]
  simp only [register, hfind, enrolledIn_eq_roster, active_eq_roster, hroster]
  cases db'.findCourse c with
  | none => simp only [h]
  | some course =>
    dsimp only
    split
    · simp only [h]
    split
    · simp only [h]
    cases ha : db.activate s c <;> cases ha' : db'.activate s c <;>
      simp only [ha, ha', Option.map_some, Option.map_none, reduceCtorEq, Option.some.injEq]
        at hactivate
    · simp only [h]
    · simp only [hactivate]

theorem register_other (hk : k ≠ c) : (db.register s c).2.forCourse k = db.forCourse k := by
  simp only [register]
  cases db.findCourse c with
  | none => rfl
  | some course =>
    dsimp only
    split
    · rfl
    split
    · rfl
    cases ha : db.activate s c with
    | none => rfl
    | some out => exact activate_other hk ha

theorem drop_congr (h : db.forCourse c = db'.forCourse c) :
    ((db.drop s c).1.success, (db.drop s c).1.error, (db.drop s c).2.forCourse c) =
      ((db'.drop s c).1.success, (db'.drop s c).1.error, (db'.drop s c).2.forCourse c) := by
  obtain ⟨husers, hcourses, hroster⟩ := forCourse_congr h
  have hfind : (db.deactivated s c).findCourse c = (db'.deactivated s c).findCourse c := by
    simp only [findCourse, deactivated, hcourses]
  have hdropped : (db.deactivated s c).forCourse c = (db'.deactivated s c).forCourse c := by
    simp only [forCourse_deactivated, husers, hcourses, hroster]
  simp only [drop, hfind, enrolledIn_eq_roster, hroster]
  split
  · cases (db'.deactivated s c).findCourse c <;> simp only [hdropped]
  · simp only [h]

theorem drop_other (hk : k ≠ c) : (db.drop s c).2.forCourse k = db.forCourse k := by
  have hother : (db.deactivated s c).forCourse k = db.forCourse k := by
    rw [forCourse_deactivated, if_neg hk, forCourse]
  simp only [drop]
  split
  · cases (db.deactivated s c).findCourse c <;> exact hother
  · rfl

theorem enrolledIn_of_forCourse (h : db.forCourse c = db'.forCourse c) :
    db.enrolledIn s c = db'.enrolledIn s c := by
  rw [enrolledIn_eq_roster, enrolledIn_eq_roster, (forCourse_congr h).2.2]

end Db

end AcademiaCr.Backend
