import AcademiaCr.Library.Reduction

/-!
# Operations with one section take effect one by one

A thread performs operations one after another. Where each of them has a single section, and
nothing that it does before depends on the others, threads with atomic sections perform whole
operations, in the order of their sections.

## Main definitions

- `Prog.Ends`, `Prog.OneSection`: programs with one section, at their end
- `OneByOne`, `OneByOne.step`: threads that perform one operation at a time
- `oneByOne_of_run`: threads with atomic sections do what these do
-/

namespace Resumption

open Transition

universe u

variable {E : Type → Type u} {O α β σ ι : Type}

section Definitions

variable (G : Guard E σ) (I : σ → Prop) (prog : O → Prog E α)

/-- The call keeps what is known of the state. -/
def Guard.Keeps (e : E β) : Prop := ∀ s r s', I s → G.exec e s = some (r, s') → I s'

/-- A program inside its section that returns right after the last call of it. -/
def Prog.Ends : Prog E α → Prop
  | .ret _ => False
  | .call e next => G.Keeps I e ∧
    if G.last e then ∀ r, ∃ a, next r = .ret a else ∀ r, (next r).Ends

/-- A part of a program inside its section. -/
def Prog.Inner (p : Prog E α) : Prop := p.Calls fun _ e => G.last e = false ∧ G.Keeps I e

/-- Calls that change nothing and whose responses are known, and then one section. -/
inductive Prog.OneSection : Prog E α → Prop
  | inside {β : Type} {e : E β} {next : β → Prog E α} : G.first e = true → G.last e = false →
      G.Keeps I e → (∀ r, (next r).Ends G I) → OneSection (.call e next)
  | fixed {β : Type} {e : E β} {next : β → Prog E α} (r : β) : G.first e = false →
      (∀ s, I s → G.exec e s = some (r, s)) → OneSection (next r) → OneSection (.call e next)

/-- A state, and for each thread the operations that it still has to perform and the answers so
far. -/
structure OneByOne (O α ι σ : Type) where
  state : σ
  todo : ι → List O
  answers : ι → List α

/-- A thread has performed an operation. -/
def OneByOne.performed [DecidableEq ι] (y : OneByOne O α ι σ) (t : ι) (rest : List O) (a : α)
    (s : σ) : OneByOne O α ι σ :=
  ⟨s, Function.update y.todo t rest, Function.update y.answers t (y.answers t ++ [a])⟩

/-- A thread performs its next operation. -/
def OneByOne.step [DecidableEq ι] (y : OneByOne O α ι σ) (t : ι) : Option (OneByOne O α ι σ) :=
  match y.todo t with
  | [] => none
  | o :: rest => ((prog o).execute G.exec y.state).map fun out => y.performed t rest out.1 out.2

end Definitions

variable {G : Guard E σ} {I : σ → Prop} {prog : O → Prog E α}

section Fields

variable [DecidableEq ι] (y : OneByOne O α ι σ) (t : ι) (rest : List O) (a : α) (s : σ)

@[simp] theorem OneByOne.performed_todo_self : (y.performed t rest a s).todo t = rest :=
  Function.update_self ..

@[simp] theorem OneByOne.performed_answers_self :
    (y.performed t rest a s).answers t = y.answers t ++ [a] :=
  Function.update_self ..

theorem OneByOne.performed_ne {u : ι} (hu : u ≠ t) :
    (y.performed t rest a s).todo u = y.todo u ∧
      (y.performed t rest a s).answers u = y.answers u :=
  ⟨Function.update_of_ne hu .., Function.update_of_ne hu ..⟩

end Fields

/-! ## Programs with one section -/

namespace Prog

theorem Ends.bind {p : Prog E α} {f : α → Prog E β} (hp : p.Inner G I)
    (hf : ∀ a, (f a).Ends G I) : (p.bind f).Ends G I := by
  induction p with
  | ret a => exact hf a
  | call e next ih =>
    refine ⟨hp.1.2, ?_⟩
    rw [hp.1.1]
    exact fun r => ih r (hp.2 r)

theorem Ends.map {p : Prog E α} (hp : p.Ends G I) (f : α → β) :
    (p.bind fun a => ret (f a)).Ends G I := by
  induction p with
  | ret a => exact hp.elim
  | call e next ih =>
    obtain ⟨hkeeps, hnext⟩ := hp
    refine ⟨hkeeps, ?_⟩
    cases hlast : G.last e with
    | true =>
      rw [hlast] at hnext
      intro r
      obtain ⟨a, ha⟩ := hnext r
      exact ⟨f a, congrArg (fun p => p.bind fun a => ret (f a)) ha⟩
    | false =>
      rw [hlast] at hnext
      exact fun r => ih r (hnext r)

theorem OneSection.map {p : Prog E α} (hp : p.OneSection G I) (f : α → β) :
    (p.bind fun a => ret (f a)).OneSection G I := by
  induction hp with
  | inside hfirst hlast hkeeps hnext =>
    exact .inside hfirst hlast hkeeps fun r => (hnext r).map f
  | fixed r hfirst hexec _ ih => exact .fixed r hfirst hexec ih

/-- The section of a program that ends with it is the execution of the program. -/
theorem Ends.segment {p : Prog E α} (hp : p.Ends G I) (k : α → Prog E β) (s : σ) :
    (p.bind k).segment G.exec G.last s =
      (p.execute G.exec s).map fun out => (k out.1, out.2) := by
  induction p generalizing s with
  | ret a => exact hp.elim
  | call e next ih =>
    obtain ⟨-, hnext⟩ := hp
    rw [call_bind]
    cases hexec : G.exec e s with
    | none => simp only [Prog.segment, execute, hexec, Option.map_none]
    | some out =>
      obtain ⟨r, s'⟩ := out
      rw [execute_call hexec]
      cases hlast : G.last e with
      | true =>
        rw [hlast] at hnext
        obtain ⟨a, ha⟩ := hnext r
        rw [segment_last hlast hexec, ha]
        rfl
      | false =>
        rw [hlast] at hnext
        rw [segment_next hlast hexec]
        exact ih r (hnext r) s'

theorem Ends.keeps {p : Prog E α} (hp : p.Ends G I) {s s' : σ} {a : α} (hs : I s)
    (h : p.execute G.exec s = some (a, s')) : I s' := by
  induction p generalizing s with
  | ret a => exact hp.elim
  | call e next ih =>
    obtain ⟨hkeeps, hnext⟩ := hp
    cases hexec : G.exec e s with
    | none => simp only [execute, hexec, reduceCtorEq] at h
    | some out =>
      obtain ⟨r, s₁⟩ := out
      rw [execute_call hexec] at h
      have hs₁ := hkeeps s r s₁ hs hexec
      cases hlast : G.last e with
      | true =>
        rw [hlast] at hnext
        obtain ⟨b, hb⟩ := hnext r
        rw [hb] at h
        cases h
        exact hs₁
      | false =>
        rw [hlast] at hnext
        exact ih r (hnext r) hs₁ h

end Prog

/-! ## Threads -/

/-- Where a thread is in its operations: at the end, or before the section of the next one, with
nothing done that another thread has seen. -/
inductive AtOperation (G : Guard E σ) (I : σ → Prop) (prog : O → Prog E α) (answers : List α) :
    List O → Prog E (List α) → Prop
  | done : AtOperation G I prog answers [] (.ret answers)
  | next {o : O} {rest : List O} {q : Prog E α} : q.OneSection G I →
      (∀ s, I s → (prog o).execute G.exec s = q.execute G.exec s) →
      AtOperation G I prog answers (o :: rest)
        (q.bind fun a => (Prog.script prog rest).bind fun as => .ret (answers ++ a :: as))

/-- A thread between two operations. -/
theorem AtOperation.script {ops : List O} (h : ∀ o ∈ ops, (prog o).OneSection G I)
    (answers : List α) : AtOperation G I prog answers ops
      ((Prog.script prog ops).bind fun as => .ret (answers ++ as)) := by
  cases ops with
  | nil =>
    have hdone : AtOperation G I prog answers [] (.ret answers) := .done
    simpa [Prog.script] using hdone
  | cons o rest =>
    have hnext : AtOperation G I prog answers (o :: rest) _ :=
      .next (h o List.mem_cons_self) fun s _ => rfl
    simpa only [Prog.script, Prog.bind_eq, Prog.bind_assoc, Prog.pure_eq, Prog.ret_bind] using hnext

/-- A step outside of sections changes nothing. -/
theorem AtOperation.call {answers : List α} {ops : List O} {p p' : Prog E (List α)} {s s' : σ}
    (h : AtOperation G I prog answers ops p) (hs : I s)
    (hstep : p.advance G.exec G.first G.last s = some (p', s'))
    (hout : p.entersSection G.first = false) : s' = s ∧ AtOperation G I prog answers ops p' := by
  cases h with
  | done => cases hstep
  | @next o rest q hone hsame =>
    cases hone with
    | inside hfirst => exact absurd (hfirst.symm.trans hout) Bool.true_eq_false.mp
    | @fixed β e next r hfirst hexec hrest =>
      rw [Prog.call_bind, Prog.advance_call hfirst, hexec s hs] at hstep
      cases hstep
      refine ⟨rfl, .next hrest fun s hs => ?_⟩
      rw [hsame s hs, Prog.execute_call (hexec s hs)]

/-- A section is the whole operation. -/
theorem AtOperation.section {answers : List α} {ops : List O} {p p' : Prog E (List α)} {s s' : σ}
    (h : AtOperation G I prog answers ops p) (hops : ∀ o ∈ ops, (prog o).OneSection G I)
    (hs : I s) (hstep : p.advance G.exec G.first G.last s = some (p', s'))
    (hin : p.entersSection G.first = true) : ∃ o rest a, ops = o :: rest ∧
      (prog o).execute G.exec s = some (a, s') ∧ I s' ∧
      AtOperation G I prog (answers ++ [a]) rest p' := by
  cases h with
  | done => cases hstep
  | @next o rest q hone hsame =>
    cases hone with
    | fixed r hfirst => exact absurd (hfirst.symm.trans hin) Bool.false_ne_true
    | @inside β e next hfirst hlast hkeeps hnext =>
      have hends : (Prog.call e next).Ends G I := ⟨hkeeps, by rw [hlast]; exact hnext⟩
      rw [Prog.call_bind, Prog.advance_section hfirst, ← Prog.call_bind,
        hends.segment] at hstep
      obtain ⟨⟨a, s₁⟩, hexecute, heq⟩ := Option.map_eq_some_iff.mp hstep
      cases heq
      refine ⟨o, rest, a, rfl, ?_, hends.keeps hs hexecute, ?_⟩
      · rw [hsame s hs, hexecute]
      · have hscript : AtOperation G I prog (answers ++ [a]) rest _ :=
          .script (fun o' ho' => hops o' (List.mem_cons_of_mem o ho')) (answers ++ [a])
        simpa only [List.append_assoc, List.singleton_append] using hscript

section Runs

variable [DecidableEq ι] {s₀ : σ} {ops : ι → List O} {x x' : Sectioned E (List α) ι σ}

/-- Threads with atomic sections stand where threads that perform one operation at a time do. -/
structure Performs (G : Guard E σ) (I : σ → Prop) (prog : O → Prog E α)
    (x : Sectioned E (List α) ι σ) (y : OneByOne O α ι σ) : Prop where
  state : y.state = x.state
  known : I x.state
  ops : ∀ t, ∀ o ∈ y.todo t, (prog o).OneSection G I
  rest : ∀ t, AtOperation G I prog (y.answers t) (y.todo t) (x.rest t)

/-- A step: nothing that can be seen, or an operation. -/
theorem Performs.step {y : OneByOne O α ι σ} {t : ι} (h : Performs G I prog x y)
    (hs : x.step G.exec G.first G.last t = some x') :
    if (x.rest t).entersSection G.first then
      ∃ y', y.step G prog t = some y' ∧ Performs G I prog x' y'
    else Performs G I prog x' y := by
  obtain ⟨hadvance, hothers⟩ := Sectioned.step_eq_some hs
  cases hin : (x.rest t).entersSection G.first with
  | false =>
    obtain ⟨hstate, hat⟩ := (h.rest t).call h.known hadvance hin
    refine ⟨h.state.trans hstate.symm, hstate ▸ h.known, h.ops, fun u => ?_⟩
    by_cases hu : u = t
    · subst hu
      exact hat
    · rw [hothers u hu]
      exact h.rest u
  | true =>
    obtain ⟨o, rest, a, htodo, hexecute, hknown, hat⟩ :=
      (h.rest t).section (h.ops t) h.known hadvance hin
    refine ⟨y.performed t rest a x'.state, ?_, rfl, hknown, fun u o' ho' => ?_, fun u => ?_⟩
    · rw [← h.state] at hexecute
      simp only [OneByOne.step, htodo, hexecute, Option.map_some]
    · by_cases hu : u = t
      · subst hu
        rw [OneByOne.performed_todo_self] at ho'
        exact h.ops u o' (htodo ▸ List.mem_cons_of_mem o ho')
      · rw [(y.performed_ne t rest a x'.state hu).1] at ho'
        exact h.ops u o' ho'
    · by_cases hu : u = t
      · subst hu
        rw [OneByOne.performed_todo_self, OneByOne.performed_answers_self]
        exact hat
      · obtain ⟨htodo', hanswers'⟩ := y.performed_ne t rest a x'.state hu
        rw [htodo', hanswers', hothers u hu]
        exact h.rest u

/-- Threads with atomic sections perform whole operations, in the order of their sections. -/
theorem oneByOne_of_run (hops : ∀ t, ∀ o ∈ ops t, (prog o).OneSection G I) (hs : I s₀)
    {history : List (Event (Sectioned E (List α) ι σ) ι)}
    (hr : Run (Sectioned.step G.exec G.first G.last) ⟨s₀, fun t => Prog.script prog (ops t)⟩
      history x) :
    ∃ past y, Run (OneByOne.step G prog) ⟨s₀, ops, fun _ => []⟩ past y ∧
      past.map (·.label) = entered G Sectioned.rest history ∧ Performs G I prog x y := by
  induction hr with
  | start =>
    refine ⟨[], _, .start, rfl, rfl, hs, hops, fun t => ?_⟩
    have hscript := AtOperation.script (hops t) []
    simpa only [List.nil_append, Prog.bind_ret] using hscript
  | @snoc history x x' t _ hstep ih =>
    obtain ⟨past, y, hr', horder, hperforms⟩ := ih
    have hnext := hperforms.step hstep
    rw [entered]
    split at hnext
    · next hin =>
      obtain ⟨y', hs', hperforms'⟩ := hnext
      refine ⟨_, y', hr'.snoc hs', ?_, hperforms'⟩
      rw [if_pos hin, List.map_cons, horder]
    · next hin =>
      refine ⟨past, y, hr', ?_, hnext⟩
      rw [if_neg hin, horder]

omit [DecidableEq ι] in
/-- A thread that has returned has performed all of its operations. -/
theorem Performs.returned {y : OneByOne O α ι σ} {t : ι} {answers : List α}
    (h : Performs G I prog x y) (hret : x.rest t = .ret answers) :
    y.todo t = [] ∧ y.answers t = answers := by
  have hat := h.rest t
  rw [hret] at hat
  generalize y.todo t = todo at hat ⊢
  generalize hp : (Prog.ret answers : Prog E (List α)) = p at hat
  cases hat with
  | done =>
    cases hp
    exact ⟨rfl, rfl⟩
  | next hone =>
    cases hone with
    | inside => cases hp
    | fixed => cases hp

end Runs

end Resumption
