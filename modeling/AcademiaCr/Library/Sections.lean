import Mathlib.Logic.Function.Basic
import AcademiaCr.Library.Program
import AcademiaCr.Library.Run

/-!
# Threads whose sections are atomic

Threads run programs over one state. A section, from a call that `first` marks to the next call
that `last` marks, is one step of the system, and so is each call outside the sections. What a
thread does is specified step by step, for whatever the others do in between.

## Main definitions

- `Prog.advance`: the next step of a program
- `Sectioned`, `Sectioned.step`: threads over one state, and their steps
- `Prog.Does`: what each step of a program does, if the others act within `rely`
- `Sectioned.does_of_run`: what each step of a run does
-/

namespace Resumption

open Transition

universe u

variable {E : Type → Type u} {α β σ ι : Type}

section Steps

variable (exec : ∀ {β : Type}, E β → σ → Option (β × σ)) (first last : ∀ {β : Type}, E β → Bool)

/-- The next step of a program: a section, or one call outside its sections. -/
def Prog.advance : Prog E α → σ → Option (Prog E α × σ)
  | .ret _, _ => none
  | .call e next, s =>
    if first e then (Prog.call e next).segment exec last s
    else (exec e s).map fun out => (next out.1, out.2)

/-- The next step of a program is a section. -/
def Prog.entersSection : Prog E α → Bool
  | .ret _ => false
  | .call e _ => first e

/-- A state, and for each thread the rest of its program. -/
structure Sectioned (E : Type → Type u) (α ι σ : Type) where
  state : σ
  rest : ι → Prog E α

/-- The next step of a thread. -/
def Sectioned.step [DecidableEq ι] (x : Sectioned E α ι σ) (t : ι) :
    Option (Sectioned E α ι σ) :=
  ((x.rest t).advance exec first last x.state).map fun out =>
    ⟨out.2, Function.update x.rest t out.1⟩

/-- Each step that the program still makes does what `ok` says about the program and the state
before and after it, if the others act within `rely` before each step. -/
inductive Prog.Does (rely : σ → σ → Prop) (ok : Prog E α → σ → Prog E α → σ → Prop) :
    Prog E α → σ → Prop
  | intro {p : Prog E α} {s : σ} :
      (∀ s' q s'', rely s s' → p.advance exec first last s' = some (q, s'') → ok p s' q s'') →
      (∀ s' q s'', rely s s' → p.advance exec first last s' = some (q, s'') → Does rely ok q s'') →
      Does rely ok p s

end Steps

variable {exec : ∀ {β : Type}, E β → σ → Option (β × σ)} {first last : ∀ {β : Type}, E β → Bool}
  {rely : σ → σ → Prop} {ok ok' : Prog E α → σ → Prog E α → σ → Prop}

namespace Prog

theorem advance_section {e : E β} {next : β → Prog E α} (h : first e = true) (s : σ) :
    (call e next).advance exec first last s = (call e next).segment exec last s :=
  if_pos h

theorem advance_call {e : E β} {next : β → Prog E α} (h : first e = false) (s : σ) :
    (call e next).advance exec first last s = (exec e s).map fun out => (next out.1, out.2) := by
  rw [advance, h]
  rfl

/-- The steps of a program one after another. -/
theorem does_iff {p : Prog E α} {s : σ} : p.Does exec first last rely ok s ↔
    ∀ s' q s'', rely s s' → p.advance exec first last s' = some (q, s'') →
      ok p s' q s'' ∧ q.Does exec first last rely ok s'' :=
  ⟨fun ⟨hok, hrest⟩ s' q s'' hs hq => ⟨hok s' q s'' hs hq, hrest s' q s'' hs hq⟩,
    fun h => .intro (fun s' q s'' hs hq => (h s' q s'' hs hq).1)
      fun s' q s'' hs hq => (h s' q s'' hs hq).2⟩

theorem does_ret (a : α) (s : σ) : (ret a).Does exec first last rely ok s :=
  does_iff.mpr fun _ _ _ _ h => by cases h

theorem Does.mono {p : Prog E α} {s : σ} (h : p.Does exec first last rely ok s)
    (hok : ∀ p s q s', ok p s q s' → ok' p s q s') : p.Does exec first last rely ok' s := by
  induction h with
  | intro hsteps _ ih =>
    exact does_iff.mpr fun s' q s'' hs hq =>
      ⟨hok _ _ _ _ (hsteps s' q s'' hs hq), ih s' q s'' hs hq⟩

/-- What the others do keeps what is known about a program. -/
theorem Does.interfere {p : Prog E α} {s s' : σ} (h : p.Does exec first last rely ok s)
    (htrans : ∀ s₁ s₂ s₃, rely s₁ s₂ → rely s₂ s₃ → rely s₁ s₃) (hs : rely s s') :
    p.Does exec first last rely ok s' := by
  exact does_iff.mpr fun s₁ q s₂ h₁ hq => does_iff.mp h s₁ q s₂ (htrans _ _ _ hs h₁) hq

/-- If all calls of a program do what a reflexive and transitive relation on states says, so do
its steps. -/
theorem does_of_calls {P : ∀ β, E β → Prop} {guar : σ → σ → Prop} (hrefl : ∀ s, guar s s)
    (htrans : ∀ s₁ s₂ s₃, guar s₁ s₂ → guar s₂ s₃ → guar s₁ s₃)
    (hcall : ∀ {β : Type} (e : E β) s r s', P β e → exec e s = some (r, s') → guar s s')
    {p : Prog E α} (hp : p.Calls P) (s : σ) :
    p.Does exec first last rely (fun _ s _ s' => guar s s') s := by
  -- outside a section and inside one
  suffices h : (∀ s, p.Does exec first last rely (fun _ s _ s' => guar s s') s) ∧
      ∀ s q s', p.segment exec last s = some (q, s') →
        guar s s' ∧ q.Does exec first last rely (fun _ s _ s' => guar s s') s' from h.1 s
  induction p with
  | ret a =>
    refine ⟨does_ret a, fun s q s' h => ?_⟩
    cases h
    exact ⟨hrefl s, does_ret a s⟩
  | @call β e next ih =>
    have hsegment : ∀ s q s', (call e next).segment exec last s = some (q, s') →
        guar s s' ∧ q.Does exec first last rely (fun _ s _ s' => guar s s') s' := by
      intro s q s' h
      cases he : exec e s with
      | none =>
        rw [segment, he] at h
        cases h
      | some out =>
        obtain ⟨r, s₁⟩ := out
        have hfirst := hcall e s r s₁ hp.1 he
        rw [segment_call he] at h
        split at h
        · cases h
          exact ⟨hfirst, (ih r (hp.2 r)).1 s'⟩
        · obtain ⟨hrest, hq⟩ := (ih r (hp.2 r)).2 s₁ q s' h
          exact ⟨htrans _ _ _ hfirst hrest, hq⟩
    refine ⟨fun s => does_iff.mpr fun s' q s'' _ hq => ?_, hsegment⟩
    cases hf : first e with
    | true => exact hsegment s' q s'' (by rwa [advance_section hf] at hq)
    | false =>
      rw [advance_call hf] at hq
      obtain ⟨⟨r, s₁⟩, he, heq⟩ := Option.map_eq_some_iff.mp hq
      cases heq
      exact ⟨hcall e s' r s₁ hp.1 he, (ih r (hp.2 r)).1 s₁⟩

end Prog

/-! ## Runs -/

namespace Sectioned

variable [DecidableEq ι] {does : ι → Prog E α → σ → Prog E α → σ → Prop}
  {x x' : Sectioned E α ι σ}

theorem step_eq_some {t : ι} (h : x.step exec first last t = some x') :
    (x.rest t).advance exec first last x.state = some (x'.rest t, x'.state) ∧
      ∀ u, u ≠ t → x'.rest u = x.rest u := by
  obtain ⟨⟨q, s⟩, hq, rfl⟩ := Option.map_eq_some_iff.mp h
  refine ⟨?_, fun u hu => Function.update_of_ne hu q x.rest⟩
  rw [hq]
  simp

/-- What a thread does in a step, and what the threads still do after it. -/
theorem does_step {t : ι} (hrefl : ∀ s, rely s s)
    (htrans : ∀ s₁ s₂ s₃, rely s₁ s₂ → rely s₂ s₃ → rely s₁ s₃)
    (hrely : ∀ t p s q s', does t p s q s' → rely s s')
    (h : ∀ u, (x.rest u).Does exec first last rely (does u) x.state)
    (hs : x.step exec first last t = some x') :
    does t (x.rest t) x.state (x'.rest t) x'.state ∧
      ∀ u, (x'.rest u).Does exec first last rely (does u) x'.state := by
  obtain ⟨hadvance, hothers⟩ := step_eq_some hs
  obtain ⟨hstep, hrest⟩ := Prog.does_iff.mp (h t) _ _ _ (hrefl _) hadvance
  refine ⟨hstep, fun u => ?_⟩
  by_cases hu : u = t
  · rw [hu]
    exact hrest
  · rw [hothers u hu]
    exact (h u).interfere htrans (hrely _ _ _ _ _ hstep)

/-- What each step of a run does. -/
theorem does_of_run {s : σ} {programs : ι → Prog E α} (hrefl : ∀ s, rely s s)
    (htrans : ∀ s₁ s₂ s₃, rely s₁ s₂ → rely s₂ s₃ → rely s₁ s₃)
    (hrely : ∀ t p s q s', does t p s q s' → rely s s')
    (h : ∀ u, (programs u).Does exec first last rely (does u) s)
    {history : List (Event (Sectioned E α ι σ) ι)}
    (hr : Run (Sectioned.step exec first last) ⟨s, programs⟩ history x) :
    ∀ e ∈ history, does e.label (e.before.rest e.label) e.before.state
      (e.after.rest e.label) e.after.state := by
  suffices hboth : (∀ e ∈ history, does e.label (e.before.rest e.label) e.before.state
      (e.after.rest e.label) e.after.state) ∧
      ∀ u, (x.rest u).Does exec first last rely (does u) x.state from hboth.1
  induction hr with
  | start => exact ⟨by simp, h⟩
  | snoc _ hs ih =>
    obtain ⟨hstep, hrest⟩ := does_step hrefl htrans hrely ih.2 hs
    refine ⟨fun e he => ?_, hrest⟩
    obtain rfl | he := List.mem_cons.mp he
    · exact hstep
    · exact ih.1 e he

end Sectioned

end Resumption
