import Mathlib.Tactic.Common

/-!
# Runs of a labelled transition function

A system is a partial step function on states and labels. A run carries its history,
the latest step first, so that a condition on a run can speak about the states its
steps started from.

## Main definitions

- `Event`: a step with the states before and after it
- `Run`: the runs from an initial state
- `replay`: executes a schedule of labels
-/

namespace Transition

universe u

variable {S : Type u} {L : Type}

/-- One step of a run. -/
structure Event (S : Type u) (L : Type) where
  before : S
  label : L
  after : S

/-- The runs of `step` from `s₀`: their history, latest step first, and their last state. -/
inductive Run (step : S → L → Option S) (s₀ : S) : List (Event S L) → S → Prop
  | start : Run step s₀ [] s₀
  | snoc {history : List (Event S L)} {s s' : S} {l : L} : Run step s₀ history s →
      step s l = some s' → Run step s₀ (⟨s, l, s'⟩ :: history) s'

variable {step : S → L → Option S} {s₀ : S}

/-- A property of the initial state that every step allowed by `A` keeps holds at the
end of every run whose steps are all allowed. -/
theorem Run.invariant {I : S → Prop} {A : Event S L → Prop} (h₀ : I s₀)
    (hstep : ∀ s l s', I s → step s l = some s' → A ⟨s, l, s'⟩ → I s')
    {history : List (Event S L)} {s : S} (hr : Run step s₀ history s)
    (hok : ∀ e ∈ history, A e) : I s := by
  induction hr with
  | start => exact h₀
  | snoc _ hs ih =>
    have hold := ih fun e he => hok e (List.mem_cons_of_mem _ he)
    exact hstep _ _ _ hold hs (hok _ List.mem_cons_self)

/-- Every step of a run is a step of the system. -/
theorem Run.step_of_mem {history : List (Event S L)} {s : S} (hr : Run step s₀ history s) :
    ∀ e ∈ history, step e.before e.label = some e.after := by
  induction hr with
  | start => simp
  | snoc _ hs ih =>
    intro e he
    obtain rfl | he := List.mem_cons.mp he
    · exact hs
    · exact ih e he

/-- Every step of a run starts in a state that the run has reached. -/
theorem Run.exists_prefix {history : List (Event S L)} {s : S} (hr : Run step s₀ history s) :
    ∀ e ∈ history, ∃ past, Run step s₀ past e.before ∧ (e :: past) <:+ history := by
  induction hr with
  | start => simp
  | snoc hr _ ih =>
    intro e he
    obtain rfl | he := List.mem_cons.mp he
    · exact ⟨_, hr, List.suffix_refl _⟩
    · obtain ⟨past, hp, hsuf⟩ := ih e he
      exact ⟨past, hp, hsuf.trans (List.suffix_cons _ _)⟩

/-- A run up to one of its steps. -/
theorem Run.of_append {later past : List (Event S L)} {e : Event S L} {s : S}
    (hr : Run step s₀ (later ++ e :: past) s) : Run step s₀ (e :: past) e.after := by
  induction later generalizing s with
  | nil =>
    obtain _ | ⟨hr, hs⟩ := hr
    exact hr.snoc hs
  | cons e' later ih =>
    obtain _ | ⟨hr, -⟩ := hr
    exact ih hr

/-- Execute the labels of a schedule in order, keeping the history. -/
def replay (step : S → L → Option S) : List (Event S L) → S → List L →
    Option (List (Event S L) × S)
  | history, s, [] => some (history, s)
  | history, s, l :: ls =>
    match step s l with
    | none => none
    | some s' => replay step (⟨s, l, s'⟩ :: history) s' ls

theorem replay_run {history : List (Event S L)} {s : S} (hr : Run step s₀ history s) :
    ∀ {ls : List L} {out : List (Event S L) × S}, replay step history s ls = some out →
      Run step s₀ out.1 out.2 := by
  intro ls
  induction ls generalizing history s with
  | nil =>
    rintro out h
    cases h
    exact hr
  | cons l ls ih =>
    intro out h
    simp only [replay] at h
    split at h
    · cases h
    · next s' hs => exact ih (hr.snoc hs) h

end Transition
