import AcademiaCr.Library.Progress
import AcademiaCr.Library.Sections
import Mathlib.Logic.Relation

/-!
# What makes sections atomic

Threads share a semaphore that they take before each of their sections and give back after it.
Meanwhile the others only make calls outside of sections. Where these commute with all calls of
a section but one, the threads get no further than they do if each section is one step: what
the others did before that one call is moved before the section, what they did later is moved
behind it.

## Main definitions

- `Guard`: the calls of threads with sections, and which of them commute
- `Guarded`, `Guarded.step`: the threads with their semaphore, and their single calls
- `Passes`, `Prog.Goes`: programs with at most one other call in each section
- `sectioned_of_run`: what such threads reach, they reach with atomic sections
-/

namespace Resumption

open Transition

universe u v

variable {E : Type → Type u} {α β γ σ ι : Type}

/-- The calls of threads with sections: how they are executed, which of them are the first and
the last ones of a section, and which are light, that is, may be made outside of sections.
Light calls commute with the calls that are movable in a state. -/
structure Guard (E : Type → Type u) (σ : Type) where
  exec : ∀ {β : Type}, E β → σ → Option (β × σ)
  first : ∀ {β : Type}, E β → Bool
  last : ∀ {β : Type}, E β → Bool
  light : ∀ {β : Type}, E β → Prop
  movable : ∀ {β : Type}, E β → σ → Prop
  /-- What calls do to the states. -/
  grows : σ → σ → Prop
  refl : ∀ s, grows s s
  trans : ∀ {s₁ s₂ s₃}, grows s₁ s₂ → grows s₂ s₃ → grows s₁ s₃
  grows_exec : ∀ {β : Type} {e : E β} {s : σ} {r : β} {s' : σ},
    exec e s = some (r, s') → grows s s'
  movable_grows : ∀ {β : Type} {e : E β} {s s' : σ}, movable e s → grows s s' → movable e s'
  back : ∀ {β γ : Type} {e : E β} {o : E γ} {s s₁ s₂ : σ} {r : β} {a : γ},
    movable e s → light o → exec e s = some (r, s₁) → exec o s₁ = some (a, s₂) →
      ∃ s₃, exec o s = some (a, s₃) ∧ exec e s₃ = some (r, s₂)
  forth : ∀ {β γ : Type} {e : E β} {o : E γ} {s s₁ s₂ : σ} {r : β} {a : γ},
    movable e s → light o → exec o s = some (a, s₁) → exec e s₁ = some (r, s₂) →
      ∃ s₃, exec e s = some (r, s₃) ∧ exec o s₃ = some (a, s₂)

/-- A state, the rest of the program of each thread, and the value of the semaphore. -/
structure Guarded (E : Type → Type u) (α ι σ : Type) where
  state : σ
  rest : ι → Prog E α
  value : Nat

/-- Outside of the sections, or inside one, before or after the call that need not commute. -/
inductive Stage where
  | outside
  | before
  | after

theorem before_ne : Stage.before ≠ .outside := nofun

theorem after_ne : Stage.after ≠ .outside := nofun

/-- Operations one after another, with their answers. -/
def Prog.script {O : Type} (prog : O → Prog E α) : List O → Prog E (List α)
  | [] => return []
  | o :: rest => do
    let answer ← prog o
    let answers ← script prog rest
    return answer :: answers

section Definitions

variable (G : Guard E σ)

/-- The value of the semaphore after a call. -/
def Guard.valueAfter (e : E β) (value : Nat) : Nat :=
  if G.first e then value - 1 else if G.last e then value + 1 else value

/-- The next call of a thread. The first call of a section needs a positive value. -/
def Guarded.step [DecidableEq ι] (x : Guarded E α ι σ) (t : ι) : Option (Guarded E α ι σ) :=
  match x.rest t with
  | .ret _ => none
  | .call e next =>
    if G.first e ∧ x.value = 0 then none
    else (G.exec e x.state).map fun out =>
      ⟨out.2, Function.update x.rest t (next out.1), G.valueAfter e x.value⟩

/-- The stage of a program after a call. -/
inductive Passes (e : E β) (s : σ) : Stage → Stage → Prop
  | free : G.first e = false → G.last e = false → G.light e → Passes e s .outside .outside
  | enter : G.first e = true → G.last e = false → G.movable e s → Passes e s .outside .before
  | move {stage : Stage} : stage ≠ .outside → G.first e = false → G.last e = false →
      G.movable e s → Passes e s stage stage
  | commit : G.first e = false → G.last e = false → Passes e s .before .after
  | leave {stage : Stage} : stage ≠ .outside → G.first e = false → G.last e = true →
      G.movable e s → Passes e s stage .outside

/-- The program gets from the one stage to the other, and there `post` holds, as long as the
states grow between its calls. -/
def Prog.Goes (post : α → σ → Prop) (finish : Stage) : Prog E α → Stage → σ → Prop
  | .ret a, stage, s => stage = finish ∧ ∀ s', G.grows s s' → post a s'
  | .call e next, stage, s => ∃ stage', Passes G e s stage stage' ∧
      ∀ s₁ r s₂, G.grows s s₁ → G.exec e s₁ = some (r, s₂) →
        (next r).Goes post finish stage' s₂

end Definitions

variable {G : Guard E σ} {post : α → σ → Prop} {finish stage : Stage} {s s' : σ}

/-! ## Programs -/

theorem Passes.grow {e : E β} {stage' : Stage} (h : Passes G e s stage stage')
    (hs : G.grows s s') : Passes G e s' stage stage' := by
  cases h with
  | free hf hl he => exact .free hf hl he
  | enter hf hl hm => exact .enter hf hl (G.movable_grows hm hs)
  | move hp hf hl hm => exact .move hp hf hl (G.movable_grows hm hs)
  | commit hf hl => exact .commit hf hl
  | leave hp hf hl hm => exact .leave hp hf hl (G.movable_grows hm hs)

namespace Prog

theorem Goes.grow {p : Prog E α} (h : p.Goes G post finish stage s) (hs : G.grows s s') :
    p.Goes G post finish stage s' := by
  cases p with
  | ret a => exact ⟨h.1, fun s'' hs' => h.2 s'' (G.trans hs hs')⟩
  | call e next =>
    obtain ⟨stage', hpasses, hnext⟩ := h
    exact ⟨stage', hpasses.grow hs, fun s₁ r s₂ h₁ => hnext s₁ r s₂ (G.trans hs h₁)⟩

theorem goes_ret {a : α} (h : ∀ s', G.grows s s' → post a s') :
    (ret a).Goes G post stage stage s := ⟨rfl, h⟩

theorem Goes.bind {p : Prog E α} {f : α → Prog E β} {post' : β → σ → Prop} {mid : Stage}
    (hp : p.Goes G post mid stage s)
    (hf : ∀ a s', G.grows s s' → post a s' → (f a).Goes G post' finish mid s') :
    (p.bind f).Goes G post' finish stage s := by
  induction p generalizing stage s with
  | ret a =>
    obtain ⟨rfl, hpost⟩ := hp
    exact hf a s (G.refl s) (hpost s (G.refl s))
  | call e next ih =>
    obtain ⟨stage', hpasses, hnext⟩ := hp
    refine ⟨stage', hpasses, fun s₁ r s₂ h₁ he => ?_⟩
    refine ih r (hnext s₁ r s₂ h₁ he) fun a s' hs => hf a s' ?_
    exact G.trans (G.trans h₁ (G.grows_exec he)) hs

/-- Operations one after another, each of them from outside of sections to there. -/
theorem goes_script {O : Type} {prog : O → Prog E α} {ops : List O}
    (h : ∀ o ∈ ops, ∀ s, (prog o).Goes G (fun _ _ => True) .outside .outside s) (s : σ) :
    (script prog ops).Goes G (fun _ _ => True) .outside .outside s := by
  induction ops generalizing s with
  | nil => exact goes_ret fun _ _ => trivial
  | cons o rest ih =>
    refine (h o List.mem_cons_self s).bind fun answer s₁ _ _ => ?_
    have hrest := ih (fun o' ho' => h o' (List.mem_cons_of_mem o ho')) s₁
    exact hrest.bind fun _ _ _ _ => goes_ret fun _ _ => trivial

end Prog

/-! ## What a thread has done inside a section -/

/-- A program has executed movable calls of a section, and not the last one. -/
inductive Prog.Moved (G : Guard E σ) : Prog E α → σ → Prog E α → σ → Prop
  | refl (p : Prog E α) (s : σ) : Moved G p s p s
  | snoc {β : Type} {p : Prog E α} {s s₁ s₂ : σ} {e : E β} {next : β → Prog E α} {r : β} :
      Moved G p s (.call e next) s₁ → G.last e = false → G.movable e s₁ →
      G.exec e s₁ = some (r, s₂) → Moved G p s (next r) s₂

namespace Prog

variable {p q : Prog E α} {s₁ s₂ : σ}

theorem segment_next {e : E β} {next : β → Prog E α} {r : β} (hlast : G.last e = false)
    (he : G.exec e s = some (r, s₁)) :
    (call e next).segment G.exec G.last s = (next r).segment G.exec G.last s₁ := by
  rw [segment_call he, hlast]
  rfl

theorem segment_last {e : E β} {next : β → Prog E α} {r : β} (hlast : G.last e = true)
    (he : G.exec e s = some (r, s₁)) :
    (call e next).segment G.exec G.last s = some (next r, s₁) := by
  rw [segment_call he, hlast]
  rfl

/-- The section ends as the rest of it does. -/
theorem Moved.segment (h : p.Moved G s q s₁) :
    p.segment G.exec G.last s = q.segment G.exec G.last s₁ := by
  induction h with
  | refl p s => rfl
  | snoc _ hlast _ he ih => rw [ih, segment_next hlast he]

/-- A light call of another thread might have been made before the section. -/
theorem Moved.light {o : E γ} {a : γ} (h : p.Moved G s q s₁) (ho : G.light o)
    (hexec : G.exec o s₁ = some (a, s₂)) :
    ∃ s₃, G.exec o s = some (a, s₃) ∧ p.Moved G s₃ q s₂ := by
  induction h generalizing s₂ with
  | refl p s => exact ⟨s₂, hexec, .refl p s₂⟩
  | snoc _ hlast hm he ih =>
    obtain ⟨t, hfirst, hsecond⟩ := G.back hm ho he hexec
    obtain ⟨s₃, hexec', hmoved⟩ := ih hfirst
    exact ⟨s₃, hexec', hmoved.snoc hlast (G.movable_grows hm (G.grows_exec hfirst)) hsecond⟩

end Prog

section Others

variable [DecidableEq ι] {t : ι}

/-- A light call of a thread other than `t`. -/
inductive LightCall (G : Guard E σ) (t : ι) (c : Sectioned E α ι σ) : Sectioned E α ι σ → Prop
  | call {β : Type} {u : ι} {e : E β} {next : β → Prog E α} {r : β} {s : σ} : u ≠ t →
      c.rest u = .call e next → G.first e = false → G.light e → G.exec e c.state = some (r, s) →
      LightCall G t c ⟨s, Function.update c.rest u (next r)⟩

/-- Light calls of threads other than `t`, one after another. -/
abbrev LightCalls (G : Guard E σ) (t : ι) :
    Sectioned E α ι σ → Sectioned E α ι σ → Prop :=
  Relation.ReflTransGen (LightCall G t)

variable {c c' : Sectioned E α ι σ}

theorem LightCalls.grows (h : LightCalls G t c c') : G.grows c.state c'.state := by
  induction h with
  | refl => exact G.refl _
  | tail _ hstep ih =>
    cases hstep with
    | call _ _ _ _ he => exact G.trans ih (G.grows_exec he)

theorem LightCalls.rest_self (h : LightCalls G t c c') : c'.rest t = c.rest t := by
  induction h with
  | refl => rfl
  | tail _ hstep ih =>
    cases hstep with
    | call hu => exact (Function.update_of_ne (Ne.symm hu) _ _).trans ih

/-- A call that thread `t` makes after light calls of the others might have been made before
them. -/
theorem LightCalls.forth {e : E β} {r : β} {s₂ : σ} (h : LightCalls G t c c')
    (hm : G.movable e c.state) (he : G.exec e c'.state = some (r, s₂)) (q : Prog E α) :
    ∃ s₁, G.exec e c.state = some (r, s₁) ∧
      LightCalls G t ⟨s₁, Function.update c.rest t q⟩ ⟨s₂, Function.update c'.rest t q⟩ := by
  induction h generalizing s₂ with
  | refl => exact ⟨s₂, he, .refl⟩
  | @tail d d' hcalls hstep ih =>
    cases hstep with
    | @call γ u o next a s hu hrest hfirst ho hexec =>
      obtain ⟨s₃, hbefore, hafter⟩ :=
        G.forth (G.movable_grows hm (LightCalls.grows hcalls)) ho hexec he
      obtain ⟨s₁, hstart, hcalls'⟩ := ih hbefore
      refine ⟨s₁, hstart, hcalls'.tail ?_⟩
      rw [Function.update_comm hu]
      refine .call hu ?_ hfirst ho hafter
      exact (Function.update_of_ne hu q d.rest).trans hrest

end Others

/-! ## The simulation -/

/-- The threads that have taken the semaphore for a section, latest first. -/
def entered {S : Type v} (G : Guard E σ) (rest : S → ι → Prog E α) :
    List (Event S ι) → List ι
  | [] => []
  | e :: history =>
    if (rest e.before e.label).entersSection G.first then e.label :: entered G rest history
    else entered G rest history

section Entered

variable {S : Type v} {rest : S → ι → Prog E α} {x x' : S} {t : ι} {e : E β}
  {next : β → Prog E α} (history : List (Event S ι))

theorem entersSection_rest {p : Prog E α} (h : p = .call e next) :
    p.entersSection G.first = G.first e := by
  rw [h]
  rfl

theorem entered_call (h : rest x t = .call e next) (hfirst : G.first e = false) :
    entered G rest (⟨x, t, x'⟩ :: history) = entered G rest history := by
  rw [entered, entersSection_rest h, hfirst]
  rfl

theorem entered_section (h : rest x t = .call e next) (hfirst : G.first e = true) :
    entered G rest (⟨x, t, x'⟩ :: history) = t :: entered G rest history := by
  rw [entered, entersSection_rest h, hfirst]
  rfl

end Entered

section Simulation

variable [DecidableEq ι]

namespace Sectioned

variable {c₀ c c' : Sectioned E α ι σ} {order : List ι}

/-- What threads with atomic sections reach, with the sections in their order. -/
def Reached (G : Guard E σ) (c₀ : Sectioned E α ι σ) (order : List ι)
    (c : Sectioned E α ι σ) : Prop :=
  ∃ history, Run (Sectioned.step G.exec G.first G.last) c₀ history c ∧
    entered G Sectioned.rest history = order

/-- A call outside of sections is one step. -/
theorem Reached.call {t : ι} {e : E β} {next : β → Prog E α} {r : β} (h : Reached G c₀ order c)
    (hrest : c.rest t = .call e next) (hfirst : G.first e = false)
    (hexec : G.exec e c.state = some (r, s)) :
    Reached G c₀ order ⟨s, Function.update c.rest t (next r)⟩ := by
  obtain ⟨history, hr, rfl⟩ := h
  have hs : c.step G.exec G.first G.last t =
      some ⟨s, Function.update c.rest t (next r)⟩ := by
    rw [Sectioned.step, hrest, Prog.advance_call hfirst, hexec]
    rfl
  exact ⟨_, hr.snoc hs, entered_call _ hrest hfirst⟩

theorem Reached.lightCalls {t : ι} (h : Reached G c₀ order c) (hcalls : LightCalls G t c c') :
    Reached G c₀ order c' := by
  induction hcalls with
  | refl => exact h
  | tail _ hstep ih =>
    cases hstep with
    | call _ hrest hfirst _ hexec => exact ih.call hrest hfirst hexec

/-- A section is one step. -/
theorem Reached.section {t : ι} {e : E β} {next : β → Prog E α} {q : Prog E α}
    (h : Reached G c₀ order c) (hrest : c.rest t = .call e next) (hfirst : G.first e = true)
    (hsegment : (Prog.call e next).segment G.exec G.last c.state = some (q, s)) :
    Reached G c₀ (t :: order) ⟨s, Function.update c.rest t q⟩ := by
  obtain ⟨history, hr, rfl⟩ := h
  have hs : c.step G.exec G.first G.last t = some ⟨s, Function.update c.rest t q⟩ := by
    rw [Sectioned.step, hrest, Prog.advance_section hfirst, hsegment]
    rfl
  exact ⟨_, hr.snoc hs, entered_section _ hrest hfirst⟩

end Sectioned

open Sectioned

/-- Threads with a semaphore stand where threads with atomic sections do, or one of them is
inside a section that the others have not seen begin or have already seen end. -/
inductive Stands (G : Guard E σ) (post : α → σ → Prop) (c₀ : Sectioned E α ι σ)
    (x : Guarded E α ι σ) : List ι → Prop
  | outside {order : List ι} : Reached G c₀ order ⟨x.state, x.rest⟩ → x.value = 1 →
      (∀ u, (x.rest u).Goes G post .outside .outside x.state) → Stands G post c₀ x order
  | before {β : Type} {order : List ι} (t : ι) (c : Sectioned E α ι σ) (e : E β)
      (next : β → Prog E α) (q : Prog E α) : Reached G c₀ order c → c.rest t = .call e next →
      G.first e = true → (Prog.call e next).Moved G c.state q x.state →
      x.rest = Function.update c.rest t q → x.value = 0 →
      q.Goes G post .outside .before x.state →
      (∀ u, u ≠ t → (x.rest u).Goes G post .outside .outside x.state) →
      Stands G post c₀ x (t :: order)
  | after {β : Type} {order : List ι} (t : ι) (c : Sectioned E α ι σ) (e : E β)
      (next : β → Prog E α) (q : Prog E α) (s : σ) : Reached G c₀ order c →
      c.rest t = .call e next → G.first e = true →
      (Prog.call e next).segment G.exec G.last c.state = q.segment G.exec G.last s →
      LightCalls G t ⟨s, Function.update c.rest t q⟩ ⟨x.state, x.rest⟩ →
      x.value = 0 → q.Goes G post .outside .after s →
      (∀ u, u ≠ t → (x.rest u).Goes G post .outside .outside x.state) →
      Stands G post c₀ x (t :: order)

variable {x x' : Guarded E α ι σ} {t : ι} {c₀ : Sectioned E α ι σ} {order : List ι}

/-- A step of a thread is its next call. -/
theorem Guarded.step_eq_some (h : x.step G t = some x') : ∃ β, ∃ e : E β, ∃ next r s,
    x.rest t = .call e next ∧ (G.first e = true → x.value ≠ 0) ∧ G.exec e x.state = some (r, s) ∧
      x' = ⟨s, Function.update x.rest t (next r), G.valueAfter e x.value⟩ := by
  rw [Guarded.step] at h
  split at h
  · cases h
  · next β e next hrest =>
    split at h
    · cases h
    · next hvalue =>
      obtain ⟨⟨r, s⟩, hexec, rfl⟩ := Option.map_eq_some_iff.mp h
      exact ⟨β, e, next, r, s, hrest, fun hf hz => hvalue ⟨hf, hz⟩, hexec, rfl⟩

/-- The others go on after a call of thread `t`. -/
theorem goes_others {β : Type} {rest : ι → Prog E α} {p : Prog E α} {e : E β} {r : β}
    (h : ∀ u, u ≠ t → (rest u).Goes G post .outside .outside s) (he : G.exec e s = some (r, s'))
    (u : ι) (hu : u ≠ t) :
    (Function.update rest t p u).Goes G post .outside .outside s' := by
  rw [Function.update_of_ne hu]
  exact (h u hu).grow (G.grows_exec he)

/-- A light call leaves all threads outside of sections where they are. -/
theorem goes_update {β : Type} {rest : ι → Prog E α} {p : Prog E α} {e : E β} {r : β} {u v : ι}
    (h : ∀ w, w ≠ v → (rest w).Goes G post .outside .outside s) (he : G.exec e s = some (r, s'))
    (hp : p.Goes G post .outside .outside s') (w : ι) (hw : w ≠ v) :
    (Function.update rest u p w).Goes G post .outside .outside s' := by
  by_cases hwu : w = u
  · rw [hwu, Function.update_self]
    exact hp
  · rw [Function.update_of_ne hwu]
    exact (h w hw).grow (G.grows_exec he)

/-- A call outside of sections: a light one, or the first one of a section. -/
theorem passes_outside {e : E β} {stage : Stage} (h : Passes G e s .outside stage) :
    (stage = .outside ∧ G.first e = false ∧ G.last e = false ∧ G.light e) ∨
      (stage = .before ∧ G.first e = true ∧ G.last e = false ∧ G.movable e s) := by
  cases h with
  | free hf hl he => exact Or.inl ⟨rfl, hf, hl, he⟩
  | enter hf hl hm => exact Or.inr ⟨rfl, hf, hl, hm⟩
  | move hp => exact absurd rfl hp
  | leave hp => exact absurd rfl hp

theorem Guard.valueAfter_first {e : E β} (h : G.first e = true) (n : Nat) :
    G.valueAfter e n = n - 1 := if_pos h

theorem Guard.valueAfter_last {e : E β} (hf : G.first e = false) (hl : G.last e = true) (n : Nat) :
    G.valueAfter e n = n + 1 := by
  rw [valueAfter, hf, hl]
  rfl

theorem Guard.valueAfter_other {e : E β} (hf : G.first e = false) (hl : G.last e = false)
    (n : Nat) : G.valueAfter e n = n := by
  rw [valueAfter, hf, hl]
  rfl

/-- A call while nobody is inside a section. -/
theorem Stands.step_outside (hreached : Reached G c₀ order ⟨x.state, x.rest⟩)
    (hvalue : x.value = 1) (hgoes : ∀ u, (x.rest u).Goes G post .outside .outside x.state)
    (hs : x.step G t = some x') :
    Stands G post c₀ x' (if (x.rest t).entersSection G.first then t :: order else order) := by
  obtain ⟨β, e, next, r, s, hrest, -, hexec, rfl⟩ := Guarded.step_eq_some hs
  rw [entersSection_rest hrest]
  obtain ⟨stage, hpasses, hnext⟩ := hrest ▸ hgoes t
  have hgoes' := hnext x.state r s (G.refl _) hexec
  obtain ⟨rfl, hfirst, hlast, hlight⟩ | ⟨rfl, hfirst, hlast, hmovable⟩ := passes_outside hpasses
  · rw [hfirst]
    refine .outside ?_ ?_ fun u => ?_
    · exact hreached.call hrest hfirst hexec
    · exact (G.valueAfter_other hfirst hlast _).trans hvalue
    · by_cases hu : u = t
      · rw [hu]
        show (Function.update x.rest t (next r) t).Goes G post .outside .outside s
        rw [Function.update_self]
        exact hgoes'
      · exact goes_others (fun v _ => hgoes v) hexec u hu
  · rw [hfirst]
    refine .before t ⟨x.state, x.rest⟩ e next (next r) hreached hrest hfirst ?_ rfl ?_ hgoes' ?_
    · exact (Prog.Moved.refl _ _).snoc hlast hmovable hexec
    · rw [Guard.valueAfter_first hfirst, hvalue]
    · exact goes_others (fun v _ => hgoes v) hexec

/-- A call of the thread inside a section, before the call that need not commute. -/
theorem Stands.step_before {t : ι} {c : Sectioned E α ι σ} {e₀ : E γ} {next₀ : γ → Prog E α}
    {q : Prog E α} (hreached : Reached G c₀ order c) (hrest₀ : c.rest t = .call e₀ next₀)
    (hfirst₀ : G.first e₀ = true) (hmoved : (Prog.call e₀ next₀).Moved G c.state q x.state)
    (hx : x.rest = Function.update c.rest t q) (hvalue : x.value = 0)
    (hgoes : q.Goes G post .outside .before x.state)
    (hothers : ∀ u, u ≠ t → (x.rest u).Goes G post .outside .outside x.state)
    (hs : x.step G t = some x') :
    Stands G post c₀ x' (if (x.rest t).entersSection G.first then t :: t :: order
      else t :: order) := by
  obtain ⟨β, e, next, r, s, hrest, -, hexec, rfl⟩ := Guarded.step_eq_some hs
  rw [entersSection_rest hrest]
  rw [hx, Function.update_self] at hrest
  subst hrest
  have hothers' := goes_others (p := next r) hothers hexec
  have hrest' : Function.update x.rest t (next r) = Function.update c.rest t (next r) := by
    rw [hx, Function.update_idem]
  obtain ⟨stage, hpasses, hnext⟩ := hgoes
  have hgoes' := hnext x.state r s (G.refl _) hexec
  cases hpasses with
  | move _ hf hl hm =>
    rw [hf]
    refine .before t c e₀ next₀ (next r) hreached hrest₀ hfirst₀ (hmoved.snoc hl hm hexec)
      hrest' ?_ hgoes' hothers'
    exact (G.valueAfter_other hf hl _).trans hvalue
  | commit hf hl =>
    rw [hf]
    refine .after t c e₀ next₀ (next r) s hreached hrest₀ hfirst₀ ?_ ?_ ?_ hgoes' hothers'
    · exact hmoved.segment.trans (Prog.segment_next hl hexec)
    · rw [← hrest']
    · exact (G.valueAfter_other hf hl _).trans hvalue
  | leave _ hf hl hm =>
    rw [hf]
    refine .outside ?_ ?_ fun u => ?_
    · show Reached G c₀ (t :: order) ⟨s, Function.update x.rest t (next r)⟩
      rw [hrest']
      exact hreached.section hrest₀ hfirst₀ (hmoved.segment.trans (Prog.segment_last hl hexec))
    · rw [G.valueAfter_last hf hl, hvalue]
    · by_cases hu : u = t
      · rw [hu]
        show (Function.update x.rest t (next r) t).Goes G post .outside .outside s
        rw [Function.update_self]
        exact hgoes'
      · exact hothers' u hu

/-- A call of the thread inside a section, after the call that need not commute. -/
theorem Stands.step_after {t : ι} {c : Sectioned E α ι σ} {e₀ : E γ} {next₀ : γ → Prog E α}
    {q : Prog E α} {s₀ : σ} (hreached : Reached G c₀ order c) (hrest₀ : c.rest t = .call e₀ next₀)
    (hfirst₀ : G.first e₀ = true)
    (hsegment : (Prog.call e₀ next₀).segment G.exec G.last c.state =
      q.segment G.exec G.last s₀)
    (hcalls : LightCalls G t ⟨s₀, Function.update c.rest t q⟩ ⟨x.state, x.rest⟩)
    (hvalue : x.value = 0) (hgoes : q.Goes G post .outside .after s₀)
    (hothers : ∀ u, u ≠ t → (x.rest u).Goes G post .outside .outside x.state)
    (hs : x.step G t = some x') :
    Stands G post c₀ x' (if (x.rest t).entersSection G.first then t :: t :: order
      else t :: order) := by
  obtain ⟨β, e, next, r, s, hrest, -, hexec, rfl⟩ := Guarded.step_eq_some hs
  have hself : x.rest t = q := hcalls.rest_self.trans (Function.update_self ..)
  rw [entersSection_rest hrest]
  rw [hself] at hrest
  subst hrest
  have hothers' := goes_others (p := next r) hothers hexec
  obtain ⟨stage, hpasses, hnext⟩ := hgoes
  -- the call might have been made before the light ones that the others have made since
  have hearlier : ∀ hm : G.movable e s₀, ∃ s₁, G.exec e s₀ = some (r, s₁) ∧
      LightCalls G t ⟨s₁, Function.update c.rest t (next r)⟩
        ⟨s, Function.update x.rest t (next r)⟩ := by
    intro hm
    obtain ⟨s₁, hexec₁, hcalls₁⟩ := hcalls.forth hm hexec (next r)
    rw [Function.update_idem] at hcalls₁
    exact ⟨s₁, hexec₁, hcalls₁⟩
  cases hpasses with
  | move _ hf hl hm =>
    rw [hf]
    obtain ⟨s₁, hexec₁, hcalls₁⟩ := hearlier hm
    refine .after t c e₀ next₀ (next r) s₁ hreached hrest₀ hfirst₀ ?_ hcalls₁ ?_ ?_ hothers'
    · exact hsegment.trans (Prog.segment_next hl hexec₁)
    · exact (G.valueAfter_other hf hl _).trans hvalue
    · exact hnext s₀ r s₁ (G.refl _) hexec₁
  | leave _ hf hl hm =>
    rw [hf]
    obtain ⟨s₁, hexec₁, hcalls₁⟩ := hearlier hm
    refine .outside ?_ ?_ fun u => ?_
    · have hsection := hsegment.trans (Prog.segment_last hl hexec₁)
      exact (hreached.section hrest₀ hfirst₀ hsection).lightCalls hcalls₁
    · rw [G.valueAfter_last hf hl, hvalue]
    · by_cases hu : u = t
      · rw [hu]
        show (Function.update x.rest t (next r) t).Goes G post .outside .outside s
        rw [Function.update_self]
        exact hnext x.state r s hcalls.grows hexec
      · exact hothers' u hu

/-- A call of another thread while one is inside a section: it is light, since the semaphore
is taken. -/
theorem light_of_busy {u : ι} (hvalue : x.value = 0)
    (hgoes : (x.rest u).Goes G post .outside .outside x.state)
    (hs : x.step G u = some x') : ∃ β, ∃ e : E β, ∃ next r s, x.rest u = .call e next ∧
      G.first e = false ∧ G.light e ∧ G.exec e x.state = some (r, s) ∧
      (next r).Goes G post .outside .outside s ∧
      x' = ⟨s, Function.update x.rest u (next r), 0⟩ := by
  obtain ⟨β, e, next, r, s, hrest, hfree, hexec, rfl⟩ := Guarded.step_eq_some hs
  obtain ⟨stage, hpasses, hnext⟩ := hrest ▸ hgoes
  obtain ⟨rfl, hfirst, hlast, hlight⟩ | ⟨rfl, hfirst, -, -⟩ := passes_outside hpasses
  · refine ⟨β, e, next, r, s, hrest, hfirst, hlight, hexec, ?_, ?_⟩
    · exact hnext x.state r s (G.refl _) hexec
    · rw [G.valueAfter_other hfirst hlast, hvalue]
  · exact absurd hvalue (hfree hfirst)

theorem Stands.step (h : Stands G post c₀ x order) (hs : x.step G t = some x') :
    Stands G post c₀ x' (if (x.rest t).entersSection G.first then t :: order else order) := by
  cases h with
  | outside hreached hvalue hgoes => exact step_outside hreached hvalue hgoes hs
  | before u c e₀ next₀ q hreached hrest₀ hfirst₀ hmoved hx hvalue hgoes hothers =>
    by_cases ht : t = u
    · subst ht
      exact step_before hreached hrest₀ hfirst₀ hmoved hx hvalue hgoes hothers hs
    · obtain ⟨β, e, next, r, s, hrest, hfirst, hlight, hexec, hgoes', rfl⟩ :=
        light_of_busy hvalue (hothers t ht) hs
      rw [entersSection_rest hrest, hfirst]
      obtain ⟨s₃, hexec₃, hmoved₃⟩ := hmoved.light hlight hexec
      have hrest₃ : c.rest t = .call e next := by
        rw [← hrest, hx, Function.update_of_ne ht]
      refine .before u ⟨s₃, Function.update c.rest t (next r)⟩ e₀ next₀ q
        (hreached.call hrest₃ hfirst hexec₃) ?_ hfirst₀ hmoved₃ ?_ rfl
        (hgoes.grow (G.grows_exec hexec)) (goes_update hothers hexec hgoes')
      · exact (Function.update_of_ne (Ne.symm ht) _ _).trans hrest₀
      · show Function.update x.rest t (next r) = _
        rw [hx, Function.update_comm ht]
  | after u c e₀ next₀ q s₀ hreached hrest₀ hfirst₀ hsegment hcalls hvalue hgoes hothers =>
    by_cases ht : t = u
    · subst ht
      exact step_after hreached hrest₀ hfirst₀ hsegment hcalls hvalue hgoes hothers hs
    · obtain ⟨β, e, next, r, s, hrest, hfirst, hlight, hexec, hgoes', rfl⟩ :=
        light_of_busy hvalue (hothers t ht) hs
      rw [entersSection_rest hrest, hfirst]
      exact .after u c e₀ next₀ q s₀ hreached hrest₀ hfirst₀ hsegment
        (hcalls.tail (.call ht hrest hfirst hlight hexec)) rfl hgoes
        (goes_update hothers hexec hgoes')

variable {programs : ι → Prog E α} {history : List (Event (Guarded E α ι σ) ι)}

theorem stands_of_run (h : ∀ u, (programs u).Goes G post .outside .outside s)
    (hr : Run (Guarded.step G) ⟨s, programs, 1⟩ history x) :
    Stands G post ⟨s, programs⟩ x (entered G Guarded.rest history) := by
  induction hr with
  | start => exact .outside ⟨[], .start, rfl⟩ rfl h
  | snoc _ hs ih => exact ih.step hs

/-- Whenever nobody is inside a section, the threads stand where threads with atomic sections
also get, with their sections in the order in which they have taken the semaphore. -/
theorem sectioned_of_run (h : ∀ u, (programs u).Goes G post .outside .outside s)
    (hr : Run (Guarded.step G) ⟨s, programs, 1⟩ history x) (hvalue : x.value = 1) :
    Reached G ⟨s, programs⟩ (entered G Guarded.rest history) ⟨x.state, x.rest⟩ := by
  have hzero : x.value ≠ 0 := by omega
  have hstands := stands_of_run h hr
  generalize entered G Guarded.rest history = order at hstands ⊢
  cases hstands with
  | outside hreached => exact hreached
  | before _ _ _ _ _ _ _ _ _ _ h => exact absurd h hzero
  | after _ _ _ _ _ _ _ _ _ _ _ h => exact absurd h hzero

/-- Threads that have all returned have given the semaphore back. -/
theorem Stands.value_of_returned (h : Stands G post c₀ x order)
    (hret : ∀ t, ∃ a, x.rest t = .ret a) : x.value = 1 := by
  cases h with
  | outside _ hvalue => exact hvalue
  | before t c e₀ next₀ q _ _ _ _ hx _ hgoes =>
    obtain ⟨a, ha⟩ := hret t
    rw [hx, Function.update_self] at ha
    subst ha
    cases hgoes.1
  | after t c e₀ next₀ q s₀ _ _ _ _ hcalls _ hgoes =>
    obtain ⟨a, ha⟩ := hret t
    have hself : x.rest t = q := hcalls.rest_self.trans (Function.update_self ..)
    rw [← hself, ha] at hgoes
    cases hgoes.1

/-- While the semaphore is taken, a thread is inside a section, and does not wait. -/
theorem Stands.exists_inside (h : Stands G post c₀ x order) (hvalue : x.value = 0) :
    ∃ t, ∃ β, ∃ e : E β, ∃ next, x.rest t = .call e next ∧ G.first e = false := by
  have hnext : ∀ {q : Prog E α} {stage : Stage} {s : σ}, stage ≠ .outside →
      q.Goes G post .outside stage s →
        ∃ β, ∃ e : E β, ∃ next, q = .call e next ∧ G.first e = false := by
    intro q stage s hstage hgoes
    cases q with
    | ret a => exact absurd hgoes.1 hstage
    | @call β e next =>
      obtain ⟨stage', hpasses, -⟩ := hgoes
      refine ⟨β, e, next, rfl, ?_⟩
      cases hpasses with
      | free => exact absurd rfl hstage
      | enter => exact absurd rfl hstage
      | move _ hf => exact hf
      | commit hf => exact hf
      | leave _ hf => exact hf
  cases h with
  | outside _ hone => exact absurd (hone.symm.trans hvalue) Nat.one_ne_zero
  | before t c e₀ next₀ q _ _ _ _ hx _ hgoes =>
    obtain ⟨β, e, next, hq, hfirst⟩ := hnext before_ne hgoes
    exact ⟨t, β, e, next, by rw [hx, Function.update_self, hq], hfirst⟩
  | after t c e₀ next₀ q s₀ _ _ _ _ hcalls _ hgoes =>
    obtain ⟨β, e, next, hq, hfirst⟩ := hnext after_ne hgoes
    have hself : x.rest t = q := hcalls.rest_self.trans (Function.update_self ..)
    exact ⟨t, β, e, next, hself.trans hq, hfirst⟩

/-! ## The end -/

/-- One call of some thread. -/
def Guarded.Next (G : Guard E σ) (x x' : Guarded E α ι σ) : Prop := ∃ t, x.step G t = some x'

/-- All threads have returned. -/
def Guarded.Returned (x : Guarded E α ι σ) : Prop := ∀ t, ∃ a, x.rest t = .ret a

/-- The next call of a thread has no result. -/
def Guarded.Faulty (G : Guard E σ) (x : Guarded E α ι σ) : Prop :=
  ∃ t β, ∃ e : E β, ∃ next, x.rest t = .call e next ∧ G.exec e x.state = none

theorem Guarded.advances (h : x.step G t = some x') :
    Advances Prog.Rest x'.rest x.rest := by
  obtain ⟨β, e, next, r, s, hrest, -, -, rfl⟩ := Guarded.step_eq_some h
  refine ⟨t, ?_, fun u hu => Function.update_of_ne hu _ _⟩
  rw [hrest]
  show Prog.Rest (Function.update x.rest t (next r) t) _
  rw [Function.update_self]
  exact .call e next r

theorem Guarded.exists_step {e : E β} {next : β → Prog E α} (hrest : x.rest t = .call e next)
    (hfree : G.first e = true → x.value ≠ 0) (hfaulty : ¬ x.Faulty G) :
    ∃ x', x.step G t = some x' := by
  cases hexec : G.exec e x.state with
  | none => exact absurd ⟨t, β, e, next, hrest, hexec⟩ hfaulty
  | some out =>
    have hopen : ¬ (G.first e = true ∧ x.value = 0) := fun h => hfree h.1 h.2
    rw [Guarded.step, hrest]
    exact ⟨_, (if_neg hopen).trans (by rw [hexec]; rfl)⟩

/-- The threads do not block each other: however they are scheduled, all of them return, or one
of them makes a call without a result. -/
theorem returned_inevitable [Finite ι] (h : ∀ u, (programs u).Goes G post .outside .outside s)
    (hr : Run (Guarded.step G) ⟨s, programs, 1⟩ history x) :
    Inevitable (Guarded.Next G) (fun x => x.Returned ∨ x.Faulty G) x := by
  refine Inevitable.of_wellFounded (I := fun x => ∃ order, Stands G post ⟨s, programs⟩ x order)
    ?_ ?_ ?_ ⟨_, stands_of_run h hr⟩
  · refine Subrelation.wf ?_
      (InvImage.wf Guarded.rest (wellFounded_advances Prog.wellFounded_rest))
    rintro x' x ⟨-, t, hs⟩
    exact Guarded.advances hs
  · rintro x x' ⟨order, hx⟩ ⟨t, hs⟩
    exact ⟨_, hx.step hs⟩
  · rintro x ⟨order, hx⟩ hgoal
    obtain ⟨hreturned, hfaulty⟩ := not_or.mp hgoal
    by_cases hzero : x.value = 0
    · obtain ⟨t, β, e, next, hrest, hfirst⟩ := hx.exists_inside hzero
      have hfree : G.first e = true → x.value ≠ 0 := fun h => by rw [hfirst] at h; cases h
      obtain ⟨x', hs⟩ := Guarded.exists_step hrest hfree hfaulty
      exact ⟨x', t, hs⟩
    · obtain ⟨t, ht⟩ := not_forall.mp hreturned
      cases hrest : x.rest t with
      | ret a => exact absurd ⟨a, hrest⟩ ht
      | call e next =>
        obtain ⟨x', hs⟩ := Guarded.exists_step hrest (fun _ => hzero) hfaulty
        exact ⟨x', t, hs⟩

end Simulation

end Resumption
