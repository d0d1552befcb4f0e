import Mathlib.Logic.Relation

namespace Runs

/-- `step s a` is `none` when `a` cannot happen in `s`. -/
structure Machine (σ : Type*) (α : Type*) where
  start : σ
  step : σ → α → Option σ

variable {σ α : Type*} (M : Machine σ α)

def anyStep : σ → α → Prop := fun _ _ => True

namespace Machine

def Next (ok : σ → α → Prop) (s s' : σ) : Prop := ∃ a, ok s a ∧ M.step s a = some s'

/-- `s'` comes after `s` in some run. -/
def Leads (ok : σ → α → Prop) : σ → σ → Prop := Relation.ReflTransGen (M.Next ok)

def Reachable (ok : σ → α → Prop) (s : σ) : Prop := M.Leads ok M.start s

/-- Run a list of steps, checking the condition before each. -/
def run (ok : σ → α → Prop) [∀ s a, Decidable (ok s a)] : σ → List α → Option σ
  | s, [] => some s
  | s, a :: as => if ok s a then (M.step s a).bind (run ok · as) else none

variable {M} {ok ok' : σ → α → Prop}

theorem Reachable.start : M.Reachable ok M.start := Relation.ReflTransGen.refl

theorem Reachable.next {s s' : σ} {a : α} (h : M.Reachable ok s) (ha : ok s a)
    (hs : M.step s a = some s') : M.Reachable ok s' :=
  Relation.ReflTransGen.tail h ⟨a, ha, hs⟩

theorem Reachable.leads {s s' : σ} (h : M.Reachable ok s) (hs : M.Leads ok s s') :
    M.Reachable ok s' :=
  Relation.ReflTransGen.trans h hs

theorem Leads.mono {s s' : σ} (hok : ∀ s a, ok s a → ok' s a) (h : M.Leads ok s s') :
    M.Leads ok' s s' :=
  Relation.ReflTransGen.mono (fun _ _ ⟨a, ha, hs⟩ => ⟨a, hok _ _ ha, hs⟩) _ _ h

theorem Reachable.mono {s : σ} (hok : ∀ s a, ok s a → ok' s a) (h : M.Reachable ok s) :
    M.Reachable ok' s :=
  Leads.mono hok h

theorem Reachable.any {s : σ} (h : M.Reachable ok s) : M.Reachable anyStep s :=
  h.mono fun _ _ _ => trivial

/-- What one allowed step preserves, every run preserves. -/
theorem Leads.invariant {I : σ → Prop} {s s' : σ} (h : M.Leads ok s s') (h0 : I s)
    (hstep : ∀ s a s', ok s a → I s → M.step s a = some s' → I s') : I s' := by
  induction h with
  | refl => exact h0
  | tail _ hn ih =>
    obtain ⟨a, ha, hs⟩ := hn
    exact hstep _ _ _ ha ih hs

theorem Reachable.invariant {I : σ → Prop} {s : σ} (h : M.Reachable ok s) (h0 : I M.start)
    (hstep : ∀ s a s', ok s a → I s → M.step s a = some s' → I s') : I s :=
  Leads.invariant h h0 hstep

theorem Reachable.invariant' {I : σ → Prop} {s : σ} (h : M.Reachable ok s) (h0 : I M.start)
    (hstep : ∀ s a s', M.Reachable ok s → ok s a → I s → M.step s a = some s' → I s') : I s := by
  have hb : M.Reachable ok s ∧ I s := by
    refine Reachable.invariant (I := fun s => M.Reachable ok s ∧ I s) h ⟨Reachable.start, h0⟩ ?_
    intro s a s' ha hi hs
    exact ⟨hi.1.next ha hs, hstep s a s' hi.1 ha hi.2 hs⟩
  exact hb.2

theorem leads_of_run [∀ s a, Decidable (ok s a)] {as : List α} {s s' : σ}
    (h : M.run ok s as = some s') : M.Leads ok s s' := by
  induction as generalizing s with
  | nil =>
    simp only [run, Option.some.injEq] at h
    exact h ▸ Relation.ReflTransGen.refl
  | cons a as ih =>
    simp only [run] at h
    split at h
    · next ha =>
      obtain ⟨t, ht, hr⟩ := Option.bind_eq_some_iff.mp h
      exact Relation.ReflTransGen.head ⟨a, ha, ht⟩ (ih hr)
    · cases h

theorem reachable_of_run [∀ s a, Decidable (ok s a)] {as : List α} {s : σ}
    (h : M.run ok M.start as = some s) : M.Reachable ok s :=
  leads_of_run h

variable (M ok)

theorem exists_reachable_of_run [∀ s a, Decidable (ok s a)] (as : List α) (p : σ → Bool)
    (h : (M.run ok M.start as).map p = some true) : ∃ s, M.Reachable ok s ∧ p s = true := by
  obtain ⟨s, hs, hp⟩ := Option.map_eq_some_iff.mp h
  exact ⟨s, reachable_of_run hs, hp⟩

theorem exists_leads_of_run [∀ s a, Decidable (ok s a)] (as bs : List α) (p : σ → σ → Bool)
    (h : ((M.run ok M.start as).bind fun s => (M.run ok s bs).map (p s)) = some true) :
    ∃ s s', M.Reachable ok s ∧ M.Leads ok s s' ∧ p s s' = true := by
  obtain ⟨s, hs, hrest⟩ := Option.bind_eq_some_iff.mp h
  obtain ⟨s', hs', hp⟩ := Option.map_eq_some_iff.mp hrest
  exact ⟨s, s', reachable_of_run hs, leads_of_run hs', hp⟩

end Machine

instance (s : σ) (a : α) : Decidable (anyStep s a) := isTrue trivial

end Runs
