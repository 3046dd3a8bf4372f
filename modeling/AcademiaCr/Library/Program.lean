import Mathlib.Order.Basic
import Mathlib.Tactic.Common

/-!
# Programs over a shared state

A program either returns or makes one call to a shared state and continues with
the response. `Prog.run` executes it without interruption. A scheduler that runs
several programs performs the calls one at a time, so what a program computes
under interference is stated call by call.

## Main definitions

- `Prog`: programs over a call interface `E`, where `E β` are the calls answered by a `β`
- `Prog.run`: uninterrupted execution
- `Prog.execute`, `Prog.segment`: execution, or up to a marked call, when calls may fail
- `Prog.Calls`: every call the program can make satisfies a predicate
- `Prog.Safe`: a rely/guarantee specification, the environment acts between calls
- `Prog.Tolerates`: what the environment may do while the program is where it is
-/

namespace Resumption

universe u

/-- A program returns a value or makes a call and continues with its response. -/
inductive Prog (E : Type → Type u) (α : Type) : Type (max 1 u) where
  | ret (a : α)
  | call {β : Type} (e : E β) (next : β → Prog E α)

namespace Prog

variable {E : Type → Type u} {α β γ σ : Type}

/-- Sequential composition grafts the second program onto the returns of the first. -/
def bind : Prog E α → (α → Prog E β) → Prog E β
  | ret a, f => f a
  | call e next, f => call e fun r => (next r).bind f

/-- The program that makes one call and returns its response. -/
def perform (e : E β) : Prog E β := call e ret

instance : Monad (Prog E) where
  pure := ret
  bind := bind

@[simp] theorem pure_eq (a : α) : (pure a : Prog E α) = ret a := rfl

@[simp] theorem bind_eq (p : Prog E α) (f : α → Prog E β) : p >>= f = p.bind f := rfl

@[simp] theorem map_eq (f : α → β) (p : Prog E α) : f <$> p = p.bind fun a => ret (f a) := rfl

@[simp] theorem ret_bind (a : α) (f : α → Prog E β) : (ret a).bind f = f a := rfl

@[simp] theorem call_bind (e : E γ) (next : γ → Prog E α) (f : α → Prog E β) :
    (call e next).bind f = call e fun r => (next r).bind f := rfl

theorem bind_ret (p : Prog E α) : p.bind ret = p := by
  induction p with
  | ret a => rfl
  | call e next ih => simp only [call_bind, ih]

theorem bind_assoc (p : Prog E α) (f : α → Prog E β) (g : β → Prog E γ) :
    (p.bind f).bind g = p.bind fun a => (f a).bind g := by
  induction p with
  | ret a => rfl
  | call e next ih => simp only [call_bind, ih]

instance : LawfulMonad (Prog E) :=
  LawfulMonad.mk' _ (fun p => bind_ret p) (fun _ _ => rfl) bind_assoc

/-! ## Calls a program can make -/

/-- Every call on every path of the program satisfies `P`. -/
def Calls (P : ∀ β, E β → Prop) : Prog E α → Prop
  | ret _ => True
  | call e next => P _ e ∧ ∀ r, (next r).Calls P

@[simp] theorem calls_ret (P : ∀ β, E β → Prop) (a : α) : (ret a).Calls P := trivial

@[simp] theorem calls_call (P : ∀ β, E β → Prop) (e : E β) (next : β → Prog E α) :
    (call e next).Calls P ↔ P β e ∧ ∀ r, (next r).Calls P := Iff.rfl

theorem calls_bind {P : ∀ β, E β → Prop} {p : Prog E α} {f : α → Prog E β}
    (hp : p.Calls P) (hf : ∀ a, (f a).Calls P) : (p.bind f).Calls P := by
  induction p with
  | ret a => exact hf a
  | call e next ih => exact ⟨hp.1, fun r => ih r (hp.2 r)⟩

/-! ## Uninterrupted execution -/

section Run

variable (exec : ∀ {β}, E β → σ → β × σ)

/-- Execute all calls of a program, one after another, from a given state. -/
def run : Prog E α → σ → α × σ
  | ret a, s => (a, s)
  | call e next, s => run (next (exec e s).1) (exec e s).2

@[simp] theorem run_ret (a : α) (s : σ) : run exec (ret a) s = (a, s) := rfl

@[simp] theorem run_call (e : E β) (next : β → Prog E α) (s : σ) :
    run exec (call e next) s = run exec (next (exec e s).1) (exec e s).2 := rfl

theorem run_bind (p : Prog E α) (f : α → Prog E β) (s : σ) :
    run exec (p.bind f) s = run exec (f (run exec p s).1) (run exec p s).2 := by
  induction p generalizing s with
  | ret a => rfl
  | call e next ih => exact ih _ _

/-- A property kept by every call a program can make is kept by the program. -/
theorem run_preserves {I : σ → Prop} {P : ∀ β, E β → Prop} {p : Prog E α} (hp : p.Calls P)
    (hI : ∀ {β} (e : E β) s, P β e → I s → I (exec e s).2) {s : σ} (hs : I s) :
    I (run exec p s).2 := by
  induction p generalizing s with
  | ret a => exact hs
  | call e next ih => exact ih _ (hp.2 _) (hI e s hp.1 hs)

end Run

/-! ## Execution of calls that may have no result -/

section Execute

variable (exec : ∀ {β}, E β → σ → Option (β × σ))

/-- Execute all calls of a program, one after another, as long as they have results. -/
def execute : Prog E α → σ → Option (α × σ)
  | ret a, s => some (a, s)
  | call e next, s =>
    match exec e s with
    | none => none
    | some (r, s') => execute (next r) s'

/-- Execute the calls of a program up to and with the first one that `last` marks, and leave
the rest of the program. -/
def segment (last : ∀ {β}, E β → Bool) : Prog E α → σ → Option (Prog E α × σ)
  | ret a, s => some (ret a, s)
  | call e next, s =>
    match exec e s with
    | none => none
    | some (r, s') => if last e then some (next r, s') else segment last (next r) s'

variable {exec}

theorem execute_call {e : E β} {next : β → Prog E α} {s s' : σ} {r : β}
    (h : exec e s = some (r, s')) : execute exec (call e next) s = execute exec (next r) s' := by
  rw [execute, h]

theorem execute_bind (p : Prog E α) (f : α → Prog E β) (s : σ) :
    execute exec (p.bind f) s =
      (execute exec p s).bind fun out => execute exec (f out.1) out.2 := by
  induction p generalizing s with
  | ret a => rfl
  | call e next ih =>
    simp only [call_bind, execute]
    split
    · rfl
    · exact ih _ _

variable {last : ∀ {β}, E β → Bool}

theorem segment_call {e : E β} {next : β → Prog E α} {s s' : σ} {r : β}
    (h : exec e s = some (r, s')) :
    segment exec last (call e next) s =
      if last e then some (next r, s') else segment exec last (next r) s' := by
  rw [segment, h]

/-- Executing a segment and then the rest is executing the program. -/
theorem execute_segment (p : Prog E α) (s : σ) :
    ((segment exec last p s).bind fun out => execute exec out.1 out.2) = execute exec p s := by
  induction p generalizing s with
  | ret a => rfl
  | call e next ih =>
    simp only [segment, execute]
    split
    · rfl
    · split
      · rfl
      · exact ih _ _

end Execute

/-! ## Rely/guarantee specifications -/

section Safe

variable {τ : Type} (exec : τ → ∀ {β : Type}, E β → σ → β × σ)
  (rely guar : ∀ {β : Type}, E β → σ → σ → Prop) (post : α → σ → Prop)

/-- From the given state, whatever the environment does within `rely` before each call and
whatever input each call gets, every call meets `guar` and the program returns in a state
satisfying `post`. What is relied on and guaranteed may depend on the call. -/
def Safe : Prog E α → σ → Prop
  | ret a, s => post a s
  | call e next, s => ∀ s', rely e s s' → ∀ t,
      guar e s' (exec t e s').2 ∧ (next (exec t e s').1).Safe (exec t e s').2

@[simp] theorem safe_ret (a : α) (s : σ) : (ret a).Safe exec rely guar post s ↔ post a s := Iff.rfl

@[simp] theorem safe_call (e : E β) (next : β → Prog E α) (s : σ) :
    (call e next).Safe exec rely guar post s ↔ ∀ s', rely e s s' → ∀ t,
      guar e s' (exec t e s').2 ∧ (next (exec t e s').1).Safe exec rely guar post (exec t e s').2 :=
  Iff.rfl

/-- What the environment may do while the program is at a given point: `rely` before a call,
`done` once the program has returned. -/
def Tolerates (done : α → σ → σ → Prop) : Prog E α → σ → σ → Prop
  | ret a => done a
  | call e _ => rely e

variable {exec rely guar post} {done : α → σ → σ → Prop}

theorem safe_bind (post : β → σ → Prop) (p : Prog E α) (f : α → Prog E β) (s : σ) :
    (p.bind f).Safe exec rely guar post s ↔
      p.Safe exec rely guar (fun a s => (f a).Safe exec rely guar post s) s := by
  induction p generalizing s with
  | ret a => rfl
  | call e next ih => simp only [call_bind, safe_call, ih]

theorem Safe.mono {post' : α → σ → Prop} {p : Prog E α} {s : σ}
    (h : p.Safe exec rely guar post s) (hpost : ∀ a s, post a s → post' a s) :
    p.Safe exec rely guar post' s := by
  induction p generalizing s with
  | ret a => exact hpost a s h
  | call e next ih => exact fun s' hs t => ⟨(h s' hs t).1, ih _ (h s' hs t).2⟩

/-- A specification that asks for nothing is met by every program. -/
theorem safe_of_forall (hguar : ∀ {β : Type} (e : E β) s s', guar e s s') (hpost : ∀ a s, post a s)
    (p : Prog E α) (s : σ) : p.Safe exec rely guar post s := by
  induction p generalizing s with
  | ret a => exact hpost a s
  | call e next ih => exact fun s' _ t => ⟨hguar e _ _, ih _ _⟩

/-- Tolerated interference keeps a program safe, wherever it is. -/
theorem Safe.interfere
    (htrans : ∀ {β : Type} (e : E β) s₁ s₂ s₃, rely e s₁ s₂ → rely e s₂ s₃ → rely e s₁ s₃)
    (hdone : ∀ a s₁ s₂, done a s₁ s₂ → post a s₁ → post a s₂)
    {p : Prog E α} {s s' : σ} (h : p.Safe exec rely guar post s)
    (hs : p.Tolerates rely done s s') : p.Safe exec rely guar post s' := by
  cases p with
  | ret a => exact hdone a s s' hs h
  | call e next => exact fun s₃ hs₃ => h s₃ (htrans e s s' s₃ hs hs₃)

end Safe

end Prog

end Resumption
