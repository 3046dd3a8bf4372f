import Mathlib.Tactic.Common

/-!
# While loops

A loop that turns until its condition fails, as a relation, so that termination and the number
of turns are facts about it.

## Main definitions

- `While`: the loop turns a number of times and stops
- `While.unique`: how often it turns and where it stops
- `While.of_turns`: a loop whose condition fails for the first time after so many turns
-/

namespace CLang

variable {σ : Type}

/-- `while (cond) body`, started in a state, turns `n` times and stops in a state. -/
inductive While (cond : σ → Prop) (body : σ → σ) : Nat → σ → σ → Prop
  | stop {s : σ} (h : ¬ cond s) : While cond body 0 s s
  | turn {n : Nat} {s s' : σ} (h : cond s) (hrest : While cond body n (body s) s') :
    While cond body (n + 1) s s'

namespace While

variable {cond : σ → Prop} {body : σ → σ} {n : Nat} {s s' : σ}

theorem unique (h : While cond body n s s') {m : Nat} {t : σ} (h' : While cond body m s t) :
    m = n ∧ t = s' := by
  induction h generalizing m t with
  | stop hstop =>
    cases h' with
    | stop => exact ⟨rfl, rfl⟩
    | turn hturn => exact absurd hturn hstop
  | turn hturn _ ih =>
    cases h' with
    | stop hstop => exact absurd hturn hstop
    | turn _ hrest =>
      obtain ⟨rfl, rfl⟩ := ih hrest
      exact ⟨rfl, rfl⟩

/-- The states that the loop passes are given by a function of the number of turns. -/
theorem of_turns {f : Nat → σ} (hbody : ∀ j, body (f j) = f (j + 1)) (hcond : ∀ j < n, cond (f j))
    (hstop : ¬ cond (f n)) : While cond body n (f 0) (f n) := by
  induction n generalizing f with
  | zero => exact .stop hstop
  | succ n ih =>
    refine .turn (hcond 0 (Nat.succ_pos n)) ?_
    rw [hbody]
    exact ih (f := fun j => f (j + 1)) (fun j => hbody (j + 1))
      (fun j hj => hcond (j + 1) (Nat.succ_lt_succ hj)) hstop

end While

end CLang
