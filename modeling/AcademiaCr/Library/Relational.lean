import AcademiaCr.Library.Program

/-!
# Two executions side by side

Two programs run without interruption from two states. What they return and the states they
leave are related rule by rule, from what is known of their calls. With one program and two
states that an observer cannot tell apart, this is how one shows that the program tells the
observer nothing.

## Main definitions

- `Prog.Alike`: the two executions return related values and leave related states
- `SameOutcome`: related values, or the same exception
- `Prog.AlikeFrom`: so from all related states, for programs that may throw
- `Prog.lift`: a program over one interface as a program over a larger one
-/

namespace Resumption

universe u v

variable {E : Type → Type u} {F : Type → Type v} {σ τ α α' β β' ε : Type}

/-- Both computations throw the same exception, or both return, and what they return is
related. -/
inductive SameOutcome (Q : α → α' → Prop) : Except ε α → Except ε α' → Prop
  | error (e : ε) : SameOutcome Q (.error e) (.error e)
  | ok {a : α} {a' : α'} (h : Q a a') : SameOutcome Q (.ok a) (.ok a')

theorem sameOutcome_eq {x y : Except ε α} : SameOutcome Eq x y ↔ x = y := by
  constructor
  · rintro (_ | ⟨⟨⟩⟩) <;> rfl
  · rintro rfl
    cases x with
    | error e => exact .error e
    | ok a => exact .ok rfl

/-- What is computed twice is the same, and known to be what was computed. -/
theorem sameOutcome_self (x : Except ε α) :
    SameOutcome (fun a a' => a = a' ∧ x = .ok a) x x := by
  cases x with
  | error e => exact .error e
  | ok a => exact .ok ⟨rfl, rfl⟩

namespace Prog

section Alike

variable (exec : ∀ {β}, E β → σ → β × σ) (exec' : ∀ {β}, F β → τ → β × τ)
  (R : σ → τ → Prop)

/-- From these two states the programs return related values and leave related states. -/
def Alike (Q : α → α' → Prop) (p : Prog E α) (p' : Prog F α') (s : σ) (s' : τ) : Prop :=
  Q (p.run exec s).1 (p'.run exec' s').1 ∧ R (p.run exec s).2 (p'.run exec' s').2

variable {exec exec' R} {Q : α → α' → Prop} {p : Prog E α} {p' : Prog F α'} {s : σ} {s' : τ}

theorem alike_ret {a : α} {a' : α'} (h : Q a a') (hR : R s s') :
    Alike exec exec' R Q (ret a) (ret a') s s' := ⟨h, hR⟩

theorem Alike.mono {Q' : α → α' → Prop} (h : Alike exec exec' R Q p p' s s')
    (hQ : ∀ a a', Q a a' → Q' a a') : Alike exec exec' R Q' p p' s s' :=
  ⟨hQ _ _ h.1, h.2⟩

theorem alike_call {e : E β} {e' : F β'} {next : β → Prog E α} {next' : β' → Prog F α'}
    (h : Alike exec exec' R Q (next (exec e s).1) (next' (exec' e' s').1)
      (exec e s).2 (exec' e' s').2) :
    Alike exec exec' R Q (call e next) (call e' next') s s' := h

/-- One after the other: the second programs start from related values and states. -/
theorem Alike.bind {Q' : β → β' → Prop} {f : α → Prog E β} {f' : α' → Prog F β'}
    (h : Alike exec exec' R Q p p' s s')
    (hf : ∀ a a' t t', Q a a' → R t t' → Alike exec exec' R Q' (f a) (f' a') t t') :
    Alike exec exec' R Q' (p.bind f) (p'.bind f') s s' := by
  rw [Alike, run_bind, run_bind]
  exact hf _ _ _ _ h.1 h.2

/-- A program all of whose calls get the same answers in related states does so too. -/
theorem alike_of_calls {exec' : ∀ {β}, E β → τ → β × τ} {P : ∀ β, E β → Prop} {p : Prog E α}
    (hp : p.Calls P)
    (hcall : ∀ {β} (e : E β) s s', P β e → R s s' →
      (exec e s).1 = (exec' e s').1 ∧ R (exec e s).2 (exec' e s').2) (hR : R s s') :
    Alike exec exec' R Eq p p s s' := by
  induction p generalizing s s' with
  | ret a => exact alike_ret rfl hR
  | call e next ih =>
    obtain ⟨hanswer, hstate⟩ := hcall e s s' hp.1 hR
    have hrest := ih (exec e s).1 (hp.2 _) hstate
    exact alike_call (hanswer ▸ hrest)

end Alike

/-! ## Programs that may throw -/

section Except

variable {exec : ∀ {β}, E β → σ → β × σ} {exec' : ∀ {β}, F β → τ → β × τ} {R : σ → τ → Prop}
  {Q : α → α' → Prop} {Q' : β → β' → Prop} {s : σ} {s' : τ}

theorem alike_liftM {p : Prog E α} {p' : Prog F α'} (h : Alike exec exec' R Q p p' s s') :
    Alike exec exec' R (SameOutcome (ε := ε) Q) (liftM p : ExceptT ε (Prog E) α).run
      (liftM p' : ExceptT ε (Prog F) α').run s s' :=
  h.bind fun _ _ _ _ hQ hR => alike_ret (.ok hQ) hR

theorem alike_except_bind {p : ExceptT ε (Prog E) α} {p' : ExceptT ε (Prog F) α'}
    {f : α → ExceptT ε (Prog E) β} {f' : α' → ExceptT ε (Prog F) β'}
    (h : Alike exec exec' R (SameOutcome Q) p.run p'.run s s')
    (hf : ∀ a a' t t', Q a a' → R t t' →
      Alike exec exec' R (SameOutcome Q') (f a).run (f' a').run t t') :
    Alike exec exec' R (SameOutcome Q') (p >>= f).run (p' >>= f').run s s' := by
  rw [ExceptT.run_bind, ExceptT.run_bind]
  refine h.bind ?_
  rintro _ _ t t' (e | hQ) hR
  · exact alike_ret (.error e) hR
  · exact hf _ _ t t' hQ hR

theorem alike_tryCatch {p : ExceptT ε (Prog E) α} {p' : ExceptT ε (Prog F) α'}
    {f : ε → ExceptT ε (Prog E) α} {f' : ε → ExceptT ε (Prog F) α'}
    (h : Alike exec exec' R (SameOutcome Q) p.run p'.run s s')
    (hf : ∀ e t t', R t t' → Alike exec exec' R (SameOutcome Q) (f e).run (f' e).run t t') :
    Alike exec exec' R (SameOutcome Q) (tryCatch p f).run (tryCatch p' f').run s s' := by
  rw [ExceptT.run_tryCatch, ExceptT.run_tryCatch]
  refine h.bind ?_
  rintro _ _ t t' (e | hQ) hR
  · exact hf e t t' hR
  · exact alike_ret (.ok hQ) hR

variable (exec exec' R) in
/-- From all related states both programs throw the same, or return related values, and they
leave related states. -/
def AlikeFrom (Q : α → α' → Prop) (p : ExceptT ε (Prog E) α) (p' : ExceptT ε (Prog F) α') : Prop :=
  ∀ s s', R s s' → Alike exec exec' R (SameOutcome Q) p.run p'.run s s'

theorem alikeFrom_pure {a : α} {a' : α'} (h : Q a a') :
    AlikeFrom (ε := ε) exec exec' R Q (pure a) (pure a') :=
  fun _ _ hR => alike_ret (.ok h) hR

theorem alikeFrom_bind {p : ExceptT ε (Prog E) α} {p' : ExceptT ε (Prog F) α'}
    {f : α → ExceptT ε (Prog E) β} {f' : α' → ExceptT ε (Prog F) β'}
    (h : AlikeFrom exec exec' R Q p p')
    (hf : ∀ a a', Q a a' → AlikeFrom exec exec' R Q' (f a) (f' a')) :
    AlikeFrom exec exec' R Q' (p >>= f) (p' >>= f') := fun s s' hR =>
  alike_except_bind (h s s' hR) fun a a' t t' hQ ht => hf a a' hQ t t' ht

theorem alikeFrom_tryCatch {p : ExceptT ε (Prog E) α} {p' : ExceptT ε (Prog F) α'}
    {f : ε → ExceptT ε (Prog E) α} {f' : ε → ExceptT ε (Prog F) α'}
    (h : AlikeFrom exec exec' R Q p p') (hf : ∀ e, AlikeFrom exec exec' R Q (f e) (f' e)) :
    AlikeFrom exec exec' R Q (tryCatch p f) (tryCatch p' f') := fun s s' hR =>
  alike_tryCatch (h s s' hR) fun e t t' ht => hf e t t' ht

theorem alikeFrom_liftM {p : Prog E α} {p' : Prog F α'}
    (h : ∀ s s', R s s' → Alike exec exec' R Q p p' s s') :
    AlikeFrom (ε := ε) exec exec' R Q (liftM p) (liftM p') := fun s s' hR =>
  alike_liftM (h s s' hR)

/-- What a program computes without calls. -/
theorem alikeFrom_mk {x : Except ε α} {x' : Except ε α'} (h : SameOutcome Q x x') :
    AlikeFrom exec exec' R Q (ExceptT.mk (pure x)) (ExceptT.mk (pure x')) :=
  fun _ _ hR => alike_ret h hR

/-- A program all of whose calls get the same answers in related states. -/
theorem alikeFrom_of_calls {exec' : ∀ {β}, E β → τ → β × τ} {P : ∀ β, E β → Prop}
    {p : ExceptT ε (Prog E) α} (hp : p.run.Calls P)
    (hcall : ∀ {β} (e : E β) s s', P β e → R s s' →
      (exec e s).1 = (exec' e s').1 ∧ R (exec e s).2 (exec' e s').2) :
    AlikeFrom exec exec' R Eq p p := fun _ _ hR =>
  (alike_of_calls hp hcall hR).mono fun _ _ h => sameOutcome_eq.mpr h

end Except

/-! ## The calls of programs that may throw -/

section Calls

variable {P : ∀ β, E β → Prop}

theorem calls_except_bind {p : ExceptT ε (Prog E) α} {f : α → ExceptT ε (Prog E) β}
    (hp : p.run.Calls P) (hf : ∀ a, (f a).run.Calls P) : (p >>= f).run.Calls P := by
  rw [ExceptT.run_bind]
  refine calls_bind hp ?_
  rintro (e | a)
  · trivial
  · exact hf a

theorem calls_tryCatch {p : ExceptT ε (Prog E) α} {f : ε → ExceptT ε (Prog E) α}
    (hp : p.run.Calls P) (hf : ∀ e, (f e).run.Calls P) : (tryCatch p f).run.Calls P := by
  rw [ExceptT.run_tryCatch]
  refine calls_bind hp ?_
  rintro (e | a)
  · exact hf e
  · trivial

theorem calls_liftM {p : Prog E α} (hp : p.Calls P) :
    (liftM p : ExceptT ε (Prog E) α).run.Calls P :=
  calls_bind hp fun _ => trivial

end Calls

/-! ## Larger interfaces -/

section Lift

/-- The program, with every call made through the other interface. -/
def lift (f : ∀ {β}, E β → F β) : Prog E α → Prog F α
  | ret a => ret a
  | call e next => call (f e) fun r => lift f (next r)

theorem run_lift {f : ∀ {β}, E β → F β} {exec : ∀ {β}, E β → σ → β × σ}
    {exec' : ∀ {β}, F β → σ → β × σ}
    (h : ∀ {β} (e : E β) s, exec' (f e) s = exec e s) (p : Prog E α) (s : σ) :
    (p.lift f).run exec' s = p.run exec s := by
  induction p generalizing s with
  | ret a => rfl
  | call e next ih => rw [lift, run_call, run_call, h, ih]

end Lift

end Prog

end Resumption
