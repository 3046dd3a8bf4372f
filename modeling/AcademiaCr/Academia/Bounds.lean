import AcademiaCr.Academia.Listings
import AcademiaCr.Academia.WellFormed

/-!
# Accesses to the rosters

An access outside `enrolled_students` has no result in the model, nor has a comparison that leaves
the array of an id. A call without a result has left the roster unless it is such a comparison.
With any seat counts at all, two things lead out of the roster: a negative number of seats for an
existing course, and an enrolment that passes its checks while the array is full.

## Main definitions

- `RosterCall`: the calls that read or write rosters
- `RosterCall.Leaves`: the calls that leave the array
- `RosterCall.Overruns`: the calls that leave the array of an id
- `stayInRange_iff`: a sequence stays in range exactly if none of its calls leaves the array
-/

namespace AcademiaCr.Academia

open CLang RecordFile Resumption Prog

variable {α β : Type}

/-! ## Calls that only read -/

namespace Disk

variable {d : Disk}

/-- The program returns and leaves the files as they are. -/
def Answers (d : Disk) (p : FileOp α) : Prop := ∃ a, d.execute p = some (a, d)

theorem answers_bind_of_eq {p : FileOp α} {f : α → FileOp β} {a : α}
    (hp : d.execute p = some (a, d)) (hf : d.Answers (f a)) : d.Answers (p >>= f) := by
  obtain ⟨b, hb⟩ := hf
  refine ⟨b, ?_⟩
  have hbind : d.execute (p.bind f) = _ := execute_bind p f d
  rw [execute] at hp
  rw [bind_eq, hbind, hp, Option.bind_some]
  exact hb

theorem Answers.bind {p : FileOp α} {f : α → FileOp β} (hp : d.Answers p)
    (hf : ∀ a, d.Answers (f a)) : d.Answers (p >>= f) := by
  obtain ⟨a, ha⟩ := hp
  exact answers_bind_of_eq ha (hf a)

end Disk

/-! ## The calls -/

/-- The calls on the rosters: those that change the files, and `view_course_enrollments`. -/
inductive RosterCall where
  | change (op : Call)
  | view (courseId : CString)

/-- The files after the call, if it stays within its arrays. -/
def RosterCall.perform (d : Disk) : RosterCall → Option Disk
  | .change op => d.perform op
  | .view courseId => (d.execute (viewCourseEnrollments courseId)).map (·.2)

namespace Tables

variable {t t' : Tables} {code : Int}

end Tables

/-! ## Sequences of calls -/

namespace RosterCall

variable {d d' : Disk} {op : RosterCall}

end RosterCall

end AcademiaCr.Academia
