import AcademiaCr.Backend.Constraints
import AcademiaCr.Backend.Registration

/-!
# Seats

How each operation changes the number of active registrations of a course, and the bound
that no table constraint states: a course never has more of them than its capacity.

## Main definitions

- `Db.NotOverbooked`: the bound
- `Write.keepsSeats`: the statements that keep it by themselves
-/

namespace AcademiaCr.Backend

namespace Db

/-- No course has more active registrations than seats. -/
def NotOverbooked (db : Db) : Prop := ∀ c ∈ db.courses, (db.active c.id : Int) ≤ c.capacity

theorem notOverbooked_empty : ({} : Db).NotOverbooked := by simp [NotOverbooked]

/-- Courses that keep id and capacity without gaining registrations stay within bounds. -/
theorem NotOverbooked.of_le {db db' : Db} (h : db.NotOverbooked)
    (hactive : ∀ c, db'.active c ≤ db.active c)
    (hcourses : ∀ c ∈ db'.courses, ∃ c₀ ∈ db.courses, c₀.id = c.id ∧ c₀.capacity = c.capacity) :
    db'.NotOverbooked := by
  intro c hc
  obtain ⟨c₀, hc₀, hid, hcap⟩ := hcourses c hc
  have hbound := h c₀ hc₀
  have hle := hactive c.id
  rw [hid, hcap] at hbound
  omega

/-! ## Registrations -/

section Registrations

variable {db : Db} {s c : Int}

theorem Valid.count_le_one (h : db.Valid) (s c : Int) :
    db.registrations.countP (RegistrationRow.ofPair s c) ≤ 1 :=
  Table.countP_key_le_one (k := (s, c)) h.pairs fun r hr => by
    simpa [RegistrationRow.ofPair] using hr

theorem count_dropped_le (h : db.Valid) (s c : Int) :
    db.registrations.countP (RegistrationRow.droppedPair s c) ≤ 1 := by
  refine Nat.le_trans (List.countP_mono_left fun r _ hr => ?_) (h.count_le_one s c)
  simp only [RegistrationRow.droppedPair, RegistrationRow.ofPair, decide_eq_true_eq] at hr ⊢
  exact ⟨hr.1, hr.2.1⟩

theorem active_reactivated (db : Db) (s c : Int) :
    (db.reactivated s c).active c =
      db.active c + db.registrations.countP (RegistrationRow.droppedPair s c) := by
  refine Table.countP_update_gain (fun r hr => ?_) _
  simp only [RegistrationRow.droppedPair, decide_eq_true_eq] at hr
  simp [RegistrationRow.activeIn, RegistrationRow.setStatus, hr.2.1, hr.2.2]

theorem active_reactivated_of_ne (db : Db) (s : Int) {c d : Int} (h : d ≠ c) :
    (db.reactivated s c).active d = db.active d := by
  refine Table.countP_update (fun r hr => ?_) _
  simp only [RegistrationRow.droppedPair, decide_eq_true_eq] at hr
  simp [RegistrationRow.activeIn, RegistrationRow.setStatus, hr.2.1, h.symm]

theorem active_deactivated (db : Db) (s c : Int) :
    (db.deactivated s c).active c +
      db.registrations.countP (RegistrationRow.activePair s c) = db.active c := by
  refine Table.countP_update_loss (fun r hr => ?_) _
  simp only [RegistrationRow.activePair, decide_eq_true_eq] at hr
  simp [RegistrationRow.activeIn, RegistrationRow.setStatus, hr.2.1, hr.2.2]

theorem active_deactivated_of_ne (db : Db) (s : Int) {c d : Int} (h : d ≠ c) :
    (db.deactivated s c).active d = db.active d := by
  refine Table.countP_update (fun r hr => ?_) _
  simp only [RegistrationRow.activePair, decide_eq_true_eq] at hr
  simp [RegistrationRow.activeIn, RegistrationRow.setStatus, hr.2.1, h.symm]

theorem active_deactivated_le (db : Db) (s c d : Int) :
    (db.deactivated s c).active d ≤ db.active d := by
  by_cases h : d = c
  · subst h
    have := active_deactivated db s d
    omega
  · exact Nat.le_of_eq (active_deactivated_of_ne db s h)

/-- What an insertion of a registration does when the constraints allow it. -/
theorem insertRegistration_eq_some {applied : Applied}
    (h : db.insertRegistration s c = some applied) :
    db.userExists s = true ∧ db.courseExists c = true ∧
      (∀ r ∈ db.registrations, r.ofPair s c = false) ∧
      ∃ id, 0 < id ∧ applied.rowid = some id ∧ applied.db = { db with
        registrations := db.registrations ++ [⟨id, s, c, "active"⟩], registrationSeq := id } := by
  simp only [insertRegistration] at h
  split at h
  · next hc =>
    obtain ⟨hs, hc, hnew⟩ := hc
    cases h
    refine ⟨hs, hc, fun r hr => ?_, _, Table.nextKey_pos _ _, rfl, rfl⟩
    simpa using List.all_eq_true.mp hnew r hr
  · cases h

theorem active_insertRegistration {applied : Applied}
    (h : db.insertRegistration s c = some applied) (d : Int) :
    applied.db.active d = db.active d + if c = d then 1 else 0 := by
  obtain ⟨-, -, -, id, -, -, hdb⟩ := insertRegistration_eq_some h
  simp [active, hdb, List.countP_append, RegistrationRow.activeIn, List.countP_cons]

theorem insertRegistration_courses {applied : Applied}
    (h : db.insertRegistration s c = some applied) : applied.db.courses = db.courses := by
  obtain ⟨-, -, -, id, -, -, hdb⟩ := insertRegistration_eq_some h
  rw [hdb]

/-- Activating a pair takes one seat of its course and none of any other. -/
theorem active_activate (h : db.Valid) {out : Int × Db} (ha : db.activate s c = some out)
    (d : Int) : out.2.active d = db.active d + if c = d then 1 else 0 := by
  simp only [activate] at ha
  split at ha
  · next hpos =>
    cases ha
    have hle := count_dropped_le h s c
    by_cases hd : c = d
    · subst hd
      rw [active_reactivated, if_pos rfl]
      omega
    · rw [active_reactivated_of_ne db s (Ne.symm hd), if_neg hd, Nat.add_zero]
  · cases hi : db.insertRegistration s c with
    | none => simp [hi] at ha
    | some applied =>
      rw [hi] at ha
      cases ha
      exact active_insertRegistration hi d

theorem activate_courses {out : Int × Db} (ha : db.activate s c = some out) :
    out.2.courses = db.courses := by
  simp only [activate] at ha
  split at ha
  · cases ha
    rfl
  · cases hi : db.insertRegistration s c with
    | none => simp [hi] at ha
    | some applied =>
      rw [hi] at ha
      cases ha
      exact insertRegistration_courses hi

/-- Taking a seat that is free overbooks no course. -/
theorem notOverbooked_activate (h : db.Valid) (hn : db.NotOverbooked) {row : CourseRow}
    (hrow : db.findCourse c = some row) (hfree : (db.active c : Int) < row.capacity)
    {out : Int × Db} (ha : db.activate s c = some out) : out.2.NotOverbooked := by
  intro d hd
  rw [activate_courses ha] at hd
  rw [active_activate h ha]
  have hbound := hn d hd
  by_cases hid : c = d.id
  · have hrowd : d = row :=
      Table.eq_of_key_eq h.courseIds hd (findCourse_mem hrow)
        (hid.symm.trans (findCourse_id hrow).symm)
    rw [if_pos hid, ← hid, hrowd]
    omega
  · rw [if_neg hid]
    omega

theorem notOverbooked_register (h : db.Valid) (hn : db.NotOverbooked) (s c : Int) :
    (db.register s c).2.NotOverbooked := by
  simp only [register]
  split
  · exact hn
  · next row hrow =>
    split
    · exact hn
    · split
      · exact hn
      · next hfree =>
        split
        · exact hn
        · next out ha => exact notOverbooked_activate h hn hrow (by omega) ha

theorem notOverbooked_drop (hn : db.NotOverbooked) (s c : Int) :
    (db.drop s c).2.NotOverbooked := by
  have hdown : (db.deactivated s c).NotOverbooked :=
    hn.of_le (active_deactivated_le db s c) fun d hd => ⟨d, hd, rfl, rfl⟩
  simp only [drop]
  split
  · split <;> exact hdown
  · exact hn

end Registrations

end Db

/-! ## Other statements -/

/-- Statements that neither take a seat nor change a capacity. -/
def Write.keepsSeats : Write → Prop
  | reactivateRegistration _ _ => False
  | insertRegistration _ _ => False
  | updateCourse _ _ _ _ _ _ => False
  | _ => True

theorem Write.apply_notOverbooked {now : Int} {db : Db} (h : db.Valid) (hn : db.NotOverbooked)
    {w : Write} (hw : w.keepsSeats) {a : Applied} (ha : w.apply now db = some a) :
    a.db.NotOverbooked := by
  have hsame : ∀ c ∈ db.courses, ∃ c₀ ∈ db.courses, c₀.id = c.id ∧ c₀.capacity = c.capacity :=
    fun c hc => ⟨c, hc, rfl, rfl⟩
  cases w with
  | reactivateRegistration | insertRegistration | updateCourse => exact hw.elim
  | dropRegistration s c =>
    cases ha
    exact hn.of_le (Db.active_deactivated_le db s c) hsame
  | insertCourse code name credits facultyId capacity schedule =>
    simp only [apply, Db.insertCourse] at ha
    split at ha
    · next hc =>
      cases ha
      intro c hc'
      obtain hold | hnew := List.mem_append.mp hc'
      · exact hn c hold
      · -- the generated key is new, so no registration refers to it
        rw [List.mem_singleton.mp hnew]
        have hnone : db.active (Table.nextKey db.courseSeq (db.courses.map (·.id))) = 0 := by
          refine List.countP_eq_zero.mpr fun r hr hact => ?_
          obtain ⟨c₀, hc₀, hid⟩ := h.course r hr
          have hlt : c₀.id < Table.nextKey db.courseSeq (db.courses.map (·.id)) :=
            Table.lt_nextKey (List.mem_map_of_mem hc₀)
          simp only [RegistrationRow.activeIn, decide_eq_true_eq] at hact
          omega
        have hpos := hc.2.1
        show ((db.active _ : Nat) : Int) ≤ capacity
        rw [hnone]
        omega
    · cases ha
  | deleteCourse id =>
    -- a row that is deleted can only give seats back
    cases ha
    refine hn.of_le (fun c => ?_) fun c hc => ⟨c, (List.mem_filter.mp hc).1, rfl, rfl⟩
    simp only [Db.active]
    split
    · exact Table.countP_filter_le _ _ _
    · exact Nat.le_refl _
  | insertUser username hash role name email active =>
    simp only [apply, Db.insertUser] at ha
    split at ha
    · cases ha
      exact hn.of_le (fun _ => Nat.le_refl _) hsame
    · cases ha
  | updateUser name email active id =>
    cases ha
    exact hn.of_le (fun _ => Nat.le_refl _) hsame
  | updatePassword hash id =>
    cases ha
    exact hn.of_le (fun _ => Nat.le_refl _) hsame
  | deleteUser id =>
    cases ha
    dsimp only
    split
    · refine hn.of_le (fun c => Table.countP_filter_le _ _ _) fun c hc => ?_
      obtain ⟨c₀, hc₀, rfl⟩ := Table.mem_update.mp hc
      refine ⟨c₀, hc₀, ?_⟩
      split <;> exact ⟨rfl, rfl⟩
    · exact hn
  | insertSession token userId =>
    simp only [apply, Db.insertSession] at ha
    split at ha
    · cases ha
      exact hn.of_le (fun _ => Nat.le_refl _) hsame
    · cases ha
  | deleteSession token =>
    cases ha
    exact hn.of_le (fun _ => Nat.le_refl _) hsame
  | cleanupSessions =>
    cases ha
    exact hn.of_le (fun _ => Nat.le_refl _) hsame

/-- A course update to a capacity that covers the active registrations overbooks nothing. -/
theorem Db.notOverbooked_updateCourse {db : Db} (hn : db.NotOverbooked) {name schedule : String}
    {credits facultyId capacity id : Int} (hcap : (db.active id : Int) ≤ capacity) {a : Applied}
    (ha : db.updateCourse name credits facultyId capacity schedule id = some a) :
    a.db.NotOverbooked := by
  simp only [updateCourse] at ha
  split at ha
  · cases ha
  · cases ha
    intro c hc
    obtain ⟨c₀, hc₀, rfl⟩ := Table.mem_update.mp hc
    split
    · next hid =>
      have hid : c₀.id = id := by simpa using hid
      show ((db.active c₀.id : Nat) : Int) ≤ capacity
      rw [hid]
      exact hcap
    · exact hn c₀ hc₀

end AcademiaCr.Backend
