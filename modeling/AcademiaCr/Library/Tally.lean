import Mathlib.Algebra.BigOperators.Group.Finset.Basic
import Mathlib.Algebra.Order.BigOperators.Group.Finset
import Mathlib.Data.Fintype.BigOperators
import Mathlib.Tactic.Common

/-!
# Tallies over the parts of a state

What the threads of a system hold together, or how many of them are somewhere, is a sum over
the threads. When one thread moves, the sum changes by what this thread contributes.

## Main definitions

- `tally`: the sum of what each part contributes
- `tally_update`: how it changes when one part does
-/

namespace Tally

variable {ι β M : Type*} [Fintype ι] [AddCommMonoid M]

/-- The sum of what all parts contribute. -/
def tally (weight : β → M) (parts : ι → β) : M := ∑ i, weight (parts i)

theorem tally_update [DecidableEq ι] (weight : β → M) (parts : ι → β) (i : ι) (b : β) :
    tally weight (Function.update parts i b) + weight (parts i) =
      tally weight parts + weight b := by
  have hrest : ∑ j ∈ Finset.univ.erase i, weight (Function.update parts i b j) =
      ∑ j ∈ Finset.univ.erase i, weight (parts j) := by
    refine Finset.sum_congr rfl fun j hj => ?_
    rw [Function.update_of_ne (Finset.ne_of_mem_erase hj)]
  rw [tally, tally, ← Finset.sum_erase_add _ _ (Finset.mem_univ i), hrest, Function.update_self,
    ← Finset.sum_erase_add _ (fun j => weight (parts j)) (Finset.mem_univ i)]
  exact add_right_comm _ _ _

/-- Parts that contribute at most one each, of which one contributes nothing. -/
theorem tally_lt_card {weight : β → Nat} (hone : ∀ b, weight b ≤ 1) {parts : ι → β} {i : ι}
    (hi : weight (parts i) = 0) : tally weight parts < Fintype.card ι := by
  rw [tally, ← Finset.card_univ, Finset.card_eq_sum_ones]
  exact Finset.sum_lt_sum (fun j _ => hone (parts j)) ⟨i, Finset.mem_univ i, by rw [hi]; decide⟩

theorem tally_eq_zero {weight : β → M} {parts : ι → β} (h : ∀ i, weight (parts i) = 0) :
    tally weight parts = 0 :=
  Finset.sum_eq_zero fun i _ => h i

end Tally
