import Mathlib.Init

abbrev Raising (σ ε : Type) := ExceptT ε (StateM σ)

namespace Raising

variable {σ ε α β : Type}

def outcome (x : Raising σ ε α) (s : σ) : Except ε α × σ := StateT.run (ExceptT.run x) s

/-- `exc` is raised as `into exc`. -/
def ofExcept {ε' : Type} (into : ε' → ε) : Except ε' α → Raising σ ε α
  | .ok a => pure a
  | .error exc => throw (into exc)

section Outcomes

variable (s : σ)

@[simp] theorem outcome_pure (a : α) : outcome (pure a : Raising σ ε α) s = (.ok a, s) := rfl

@[simp] theorem outcome_throw (e : ε) :
    outcome (throw e : Raising σ ε α) s = (.error e, s) := rfl

@[simp] theorem outcome_get : outcome (get : Raising σ ε σ) s = (.ok s, s) := rfl

@[simp] theorem outcome_modify (g : σ → σ) :
    outcome (modify g : Raising σ ε Unit) s = (.ok (), g s) := rfl

theorem outcome_bind (x : Raising σ ε α) (f : α → Raising σ ε β) :
    outcome (x >>= f) s = match x.outcome s with
      | (.ok a, s') => (f a).outcome s'
      | (.error e, s') => (.error e, s') := by
  have hcont : outcome (x >>= f) s = ExceptT.bindCont f (x.outcome s).1 (x.outcome s).2 := rfl
  rw [hcont]
  obtain ⟨r, s'⟩ := x.outcome s
  cases r <;> rfl

theorem outcome_tryCatch (x : Raising σ ε α) (h : ε → Raising σ ε α) :
    outcome (tryCatch x h) s = match x.outcome s with
      | (.ok a, s') => (.ok a, s')
      | (.error e, s') => (h e).outcome s' := by
  have hcont : outcome (tryCatch x h) s = StateT.run (match (x.outcome s).1 with
      | .ok a => (pure (.ok a) : StateM σ (Except ε α))
      | .error e => (h e).run) (x.outcome s).2 := rfl
  rw [hcont]
  obtain ⟨r, s'⟩ := x.outcome s
  cases r <;> rfl

end Outcomes

section Chains

variable {x : Raising σ ε α} {f : α → Raising σ ε β} {h : ε → Raising σ ε α} {s s' : σ}

theorem outcome_bind_ok {a : α} (hx : x.outcome s = (.ok a, s')) :
    outcome (x >>= f) s = (f a).outcome s' := by rw [outcome_bind, hx]

theorem outcome_bind_error {e : ε} (hx : x.outcome s = (.error e, s')) :
    outcome (x >>= f) s = (.error e, s') := by rw [outcome_bind, hx]

theorem outcome_tryCatch_ok {a : α} (hx : x.outcome s = (.ok a, s')) :
    outcome (tryCatch x h) s = (.ok a, s') := by rw [outcome_tryCatch, hx]

theorem outcome_tryCatch_error {e : ε} (hx : x.outcome s = (.error e, s')) :
    outcome (tryCatch x h) s = (h e).outcome s' := by rw [outcome_tryCatch, hx]

end Chains

/-- What holds after a return, and what holds after a raise. -/
def Triple (P : σ → Prop) (x : Raising σ ε α) (Q : α → σ → Prop) (E : ε → σ → Prop) : Prop :=
  ∀ s, P s → (∀ a s', x.outcome s = (.ok a, s') → Q a s') ∧
    ∀ e s', x.outcome s = (.error e, s') → E e s'

namespace Triple

variable {P P' : σ → Prop} {x y : Raising σ ε α} {f : α → Raising σ ε β} {Q Q' : α → σ → Prop}
  {Q₂ : β → σ → Prop} {E E' F : ε → σ → Prop}

theorem conseq (h : Triple P' x Q' E') (hP : ∀ s, P s → P' s) (hQ : ∀ a s, Q' a s → Q a s)
    (hE : ∀ e s, E' e s → E e s) : Triple P x Q E := by
  intro s hs
  obtain ⟨hok, herror⟩ := h s (hP s hs)
  exact ⟨fun a s' hx => hQ a s' (hok a s' hx), fun e s' hx => hE e s' (herror e s' hx)⟩

theorem pure {a : α} (h : ∀ s, P s → Q a s) : Triple P (Pure.pure a : Raising σ ε α) Q E := by
  intro s hs
  constructor
  · rintro b s' ⟨⟩
    exact h s hs
  · rintro e s' ⟨⟩

theorem throw {e : ε} (h : ∀ s, P s → E e s) : Triple P (throw e : Raising σ ε α) Q E := by
  intro s hs
  constructor
  · rintro b s' ⟨⟩
  · rintro e' s' ⟨⟩
    exact h s hs

theorem modify {g : σ → σ} {Q : Unit → σ → Prop} (h : ∀ s, P s → Q () (g s)) :
    Triple P (modify g : Raising σ ε Unit) Q E := by
  intro s hs
  constructor
  · rintro b s' ⟨⟩
    exact h s hs
  · rintro e s' ⟨⟩

theorem bind (hx : Triple P x Q E) (hf : ∀ a, Triple (Q a) (f a) Q₂ E) :
    Triple P (x >>= f) Q₂ E := by
  intro s hs
  obtain ⟨hok, herror⟩ := hx s hs
  rcases hx : x.outcome s with ⟨r, s₁⟩
  cases r with
  | ok a =>
    rw [outcome_bind_ok hx]
    exact hf a s₁ (hok a s₁ hx)
  | error e =>
    rw [outcome_bind_error hx]
    constructor
    · rintro b s' ⟨⟩
    · rintro e' s' ⟨⟩
      exact herror e s₁ hx

theorem get_bind {f : σ → Raising σ ε β} (hf : ∀ s₀, P s₀ → Triple (· = s₀) (f s₀) Q₂ E) :
    Triple P (get >>= f) Q₂ E := by
  intro s hs
  rw [outcome_bind_ok (outcome_get s)]
  exact hf s hs s rfl

theorem tryCatch {h : ε → Raising σ ε α} (hx : Triple P x Q F) (hh : ∀ e, Triple (F e) (h e) Q E) :
    Triple P (tryCatch x h) Q E := by
  intro s hs
  obtain ⟨hok, herror⟩ := hx s hs
  rcases hx : x.outcome s with ⟨r, s₁⟩
  cases r with
  | ok a =>
    rw [outcome_tryCatch_ok hx]
    constructor
    · rintro b s' ⟨⟩
      exact hok a s₁ hx
    · rintro e s' ⟨⟩
  | error e =>
    rw [outcome_tryCatch_error hx]
    exact hh e s₁ (herror e s₁ hx)

theorem ite {c : Prop} [Decidable c] (hx : c → Triple P x Q E) (hy : ¬ c → Triple P y Q E) :
    Triple P (if c then x else y) Q E := by
  split
  · next hc => exact hx hc
  · next hc => exact hy hc

end Triple

end Raising
