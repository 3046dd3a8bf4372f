import AcademiaCr.Library.Program

/-!
# Executions that return

Total correctness of programs whose calls may have no result: from every state with the
invariant, the execution returns, in a state with the invariant. What it returns satisfies a
postcondition.

## Main definitions

- `Prog.Returns`: the specification, with a rule for each way to build a program
- `Prog.Fails`: no execution returns
- `Prog.Yields`, `Prog.Always`: what a program may return, whatever responses it gets
-/

namespace Resumption.Prog

universe u

variable {E : Type → Type u} {α β σ : Type}

/-- From every state with the invariant `I`, the program returns a value with the property `post`,
in a state with the invariant. -/
def Returns (exec : ∀ {β : Type}, E β → σ → Option (β × σ)) (I : σ → Prop) (p : Prog E α)
    (post : α → Prop) : Prop :=
  ∀ s, I s → ∃ a s', p.execute exec s = some (a, s') ∧ I s' ∧ post a

variable {exec : ∀ {β : Type}, E β → σ → Option (β × σ)} {I : σ → Prop} {post : α → Prop}

theorem returns_ret {a : α} (h : post a) : Returns exec I (ret a) post :=
  fun s hs => ⟨a, s, rfl, hs, h⟩

/-- A single call that has a result. -/
theorem returns_perform {e : E β} {post : β → Prop}
    (h : ∀ s, I s → ∃ r s', exec e s = some (r, s') ∧ I s' ∧ post r) :
    Returns exec I (perform e) post := by
  intro s hs
  obtain ⟨r, s', hexec, hI, hpost⟩ := h s hs
  exact ⟨r, s', execute_call hexec, hI, hpost⟩

theorem Returns.mono {p : Prog E α} {post' : α → Prop} (h : Returns exec I p post)
    (hpost : ∀ a, post a → post' a) : Returns exec I p post' := by
  intro s hs
  obtain ⟨a, s', hrun, hI, ha⟩ := h s hs
  exact ⟨a, s', hrun, hI, hpost a ha⟩

/-- The second program starts with what the first one returns. -/
theorem Returns.bind {p : Prog E α} {f : α → Prog E β} {post' : β → Prop}
    (h : Returns exec I p post) (hf : ∀ a, post a → Returns exec I (f a) post') :
    Returns exec I (p.bind f) post' := by
  intro s hs
  obtain ⟨a, s₁, hrun, hI, ha⟩ := h s hs
  obtain ⟨b, s', hrest, hI', hb⟩ := hf a ha s₁ hI
  refine ⟨b, s', ?_, hI', hb⟩
  rw [execute_bind, hrun]
  exact hrest

/-- From every state with the invariant, the execution has no result. -/
def Fails (exec : ∀ {β : Type}, E β → σ → Option (β × σ)) (I : σ → Prop) (p : Prog E α) : Prop :=
  ∀ s, I s → p.execute exec s = none

theorem Fails.bind {p : Prog E α} (h : Fails exec I p) (f : α → Prog E β) :
    Fails exec I (p.bind f) := by
  intro s hs
  rw [execute_bind, h s hs]
  rfl

/-- What follows a program that returns fails. -/
theorem Returns.bind_fails {p : Prog E α} {f : α → Prog E β} (h : Returns exec I p post)
    (hf : ∀ a, post a → Fails exec I (f a)) : Fails exec I (p.bind f) := by
  intro s hs
  obtain ⟨a, s₁, hrun, hI, ha⟩ := h s hs
  rw [execute_bind, hrun]
  exact hf a ha s₁ hI

/-! ## Whatever the responses -/

section Responses

variable {post mid : α → Prop}

/-- The program returns the value if it gets the right responses. -/
inductive Yields : Prog E α → α → Prop
  | ret (a : α) : Yields (ret a) a
  | call {β : Type} (e : E β) {next : β → Prog E α} (r : β) {a : α} : Yields (next r) a →
      Yields (call e next) a

/-- Whatever responses the program gets, what it returns has the property. -/
def Always (post : α → Prop) : Prog E α → Prop
  | .ret a => post a
  | .call _ next => ∀ r, (next r).Always post

theorem always_ret {a : α} (h : post a) : (ret a : Prog E α).Always post := h

theorem always_bind {p : Prog E α} {f : α → Prog E β} {post : β → Prop} (h : p.Always mid)
    (hf : ∀ a, mid a → (f a).Always post) : (p.bind f).Always post := by
  induction p with
  | ret a => exact hf a h
  | call e next ih => exact fun r => ih r (h r)

theorem always_true (p : Prog E α) : p.Always fun _ => True := by
  induction p with
  | ret a => trivial
  | call e next ih => exact fun r => ih r

theorem Yields.of_always {p : Prog E α} {a : α} (h : p.Yields a) (hp : p.Always post) :
    post a := by
  induction h with
  | ret a => exact hp
  | call e r _ ih => exact ih (hp r)

end Responses

end Resumption.Prog
