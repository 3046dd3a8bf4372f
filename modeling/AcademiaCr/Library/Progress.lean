import AcademiaCr.Library.Program
import Mathlib.Data.DFinsupp.WellFounded
import Mathlib.Logic.Relation

/-!
# Systems that come to an end

Finitely many threads, each of which gets closer to its end with each of its steps, stop after
finitely many steps. If they are never stuck short of a goal, they reach it, however they are
scheduled.

## Main definitions

- `Inevitable`: every way to go on reaches a goal, and there is one
- `Advances`: one thread gets further, the others stay
- `Commuting`: the steps of different threads do not depend on which comes first
- `Prog.Rest`: what a program is after its next call
-/

namespace Transition

universe u

variable {S : Type u} {Next : S → S → Prop} {goal goal' I : S → Prop} {s : S}

/-- The goal holds, or there is a step and the goal is inevitable after each one. -/
inductive Inevitable (Next : S → S → Prop) (goal : S → Prop) : S → Prop
  | here {s : S} : goal s → Inevitable Next goal s
  | next {s : S} : (∃ s', Next s s') → (∀ s', Next s s' → Inevitable Next goal s') →
      Inevitable Next goal s

/-- A system that stops, and not before it reaches the goal. -/
theorem Inevitable.of_wellFounded (hwf : WellFounded fun s' s => I s ∧ Next s s')
    (hstep : ∀ s s', I s → Next s s' → I s') (hlive : ∀ s, I s → ¬ goal s → ∃ s', Next s s')
    (h : I s) : Inevitable Next goal s := by
  induction s using hwf.induction with
  | _ s ih =>
    by_cases hgoal : goal s
    · exact .here hgoal
    · exact .next (hlive s h hgoal) fun s' hs => ih s' ⟨h, hs⟩ (hstep s s' h hs)

theorem Inevitable.mono (h : Inevitable Next goal s) (hgoal : ∀ s, goal s → goal' s) :
    Inevitable Next goal' s := by
  induction h with
  | here h => exact .here (hgoal _ h)
  | next hsome _ ih => exact .next hsome ih

/-! ## Threads -/

section Threads

variable {ι : Type} {T : Type u} {After : T → T → Prop}

/-- One of the threads gets further, the others stay where they are. -/
def Advances (After : T → T → Prop) (f' f : ι → T) : Prop :=
  ∃ i, After (f' i) (f i) ∧ ∀ j, j ≠ i → f' j = f j

theorem wellFounded_advances [Finite ι] (h : WellFounded After) :
    WellFounded (Advances After : (ι → T) → (ι → T) → Prop) := by
  refine Subrelation.wf ?_ (Pi.Lex.wellFounded WellOrderingRel fun _ : ι => h)
  rintro f' f ⟨i, hi, hothers⟩
  exact ⟨i, fun j hj => hothers j (ne_of_irrefl hj), hi⟩

end Threads

/-! ## Threads whose steps commute -/

section Commuting

variable {L : Type} {step : S → L → Option S} {t : S}

/-- Two threads that can both take a step come to the same state in either order. -/
def Commuting (step : S → L → Option S) : Prop :=
  ∀ s a b sa sb, a ≠ b → step s a = some sa → step s b = some sb →
    ∃ t, step sa b = some t ∧ step sb a = some t

/-- A step of any thread. -/
def AnyStep (step : S → L → Option S) (s s' : S) : Prop := ∃ l, step s l = some s'

/-- What is inevitable after one step is inevitable after every other step. -/
theorem Inevitable.of_otherStep (hc : Commuting step) (ht : ∀ l, step t l = none) {s₁ : S}
    (h : Inevitable (AnyStep step) (· = t) s₁) {a b : L} {s' : S} (ha : step s a = some s₁)
    (hb : step s b = some s') : Inevitable (AnyStep step) (· = t) s' := by
  induction h generalizing s s' a b with
  | @here s₁ hgoal =>
    by_cases hsame : a = b
    · subst hsame
      cases ha.symm.trans hb
      exact .here hgoal
    · obtain ⟨u, hu, -⟩ := hc s a b s₁ s' hsame ha hb
      rw [hgoal, ht b] at hu
      cases hu
  | @next s₁ hsome hall ih =>
    by_cases hsame : a = b
    · subst hsame
      cases ha.symm.trans hb
      exact .next hsome hall
    · obtain ⟨u, hu, hu'⟩ := hc s a b s₁ s' hsame ha hb
      -- `u` comes after `s₁`, so every step of `s'` is beside one that leads on as it should
      refine .next ⟨u, a, hu'⟩ ?_
      rintro s'' ⟨c, hc'⟩
      exact ih u ⟨b, hu⟩ hu' hc'

/-- Where one schedule comes to an end, every schedule does. -/
theorem Inevitable.of_path (hc : Commuting step) (ht : ∀ l, step t l = none)
    (h : Relation.ReflTransGen (AnyStep step) s t) :
    Inevitable (AnyStep step) (· = t) s := by
  induction h using Relation.ReflTransGen.head_induction_on with
  | refl => exact .here rfl
  | head hstep _ ih =>
    obtain ⟨a, ha⟩ := hstep
    refine .next ⟨_, a, ha⟩ ?_
    rintro s' ⟨b, hb⟩
    exact ih.of_otherStep hc ht ha hb

end Commuting

end Transition

namespace Resumption

universe u

variable {E : Type → Type u} {α : Type}

namespace Prog

/-- A program after a call, whatever the response. -/
inductive Rest : Prog E α → Prog E α → Prop
  | call {β : Type} (e : E β) (next : β → Prog E α) (r : β) : Rest (next r) (.call e next)

theorem wellFounded_rest : WellFounded (Rest : Prog E α → Prog E α → Prop) := by
  refine ⟨fun p => ?_⟩
  induction p with
  | ret a =>
    refine ⟨_, fun q hq => ?_⟩
    cases hq
  | call e next ih =>
    refine ⟨_, fun q hq => ?_⟩
    cases hq with
    | call _ _ r => exact ih r

end Prog

end Resumption
