import Mathlib
import WorkerBridge.Runs

namespace Runs

namespace Machine

variable {σ α : Type*}

/-- The steps that `helps` names lower the work, one of them can be taken as long as there is work,
and those that `idles` names do not raise it. -/
structure Draining (M : Machine σ α) (I : σ → Prop) (helps idles : α → Bool) (work : σ → ℕ) :
    Prop where
  keeps : ∀ s a s', I s → (helps a || idles a) = true → M.step s a = some s' → I s'
  lowers : ∀ s a s', I s → helps a = true → M.step s a = some s' → work s' < work s
  bears : ∀ s a s', I s → idles a = true → M.step s a = some s' → work s' ≤ work s
  goes : ∀ s, I s → work s ≠ 0 → ∃ a s', helps a = true ∧ M.step s a = some s'

namespace Draining

variable {M : Machine σ α} {I : σ → Prop} {helps idles : α → Bool} {work : σ → ℕ} {s s' : σ}
  {as : List α}

/-- The invariant holds all along the run, and each helpful step takes its share of the work. -/
theorem run_le (h : M.Draining I helps idles work) (hs : I s)
    (has : ∀ a ∈ as, (helps a || idles a) = true) (hrun : M.run anyStep s as = some s') :
    I s' ∧ as.countP helps + work s' ≤ work s := by
  induction as generalizing s with
  | nil =>
    simp only [run, Option.some.injEq] at hrun
    subst hrun
    exact ⟨hs, by simp⟩
  | cons a as ih =>
    obtain ⟨t, hstep, hrest⟩ := Option.bind_eq_some_iff.mp ((if_pos trivial).symm.trans hrun)
    have ha := has a List.mem_cons_self
    obtain ⟨hs', hle⟩ := ih (h.keeps s a t hs ha hstep)
      (fun b hb => has b (List.mem_cons_of_mem a hb)) hrest
    refine ⟨hs', ?_⟩
    rw [List.countP_cons]
    cases hhelp : helps a with
    | true =>
      have hlt := h.lowers s a t hs hhelp hstep
      simp only [if_true]
      omega
    | false =>
      rw [hhelp, Bool.false_or] at ha
      have hle' := h.bears s a t hs ha hstep
      simp only [Bool.false_eq_true, if_false]
      omega

end Draining

end Machine

section Sum

variable {β : Type*} (f : β → ℕ) {l : List β} {i : ℕ} {b : β}

theorem sum_set_add (h : l[i]? = some b) (b' : β) :
    ((l.set i b').map f).sum + f b = (l.map f).sum + f b' := by
  induction l generalizing i with
  | nil => cases h
  | cons x xs ih =>
    cases i with
    | zero =>
      cases h
      simp only [List.set_cons_zero, List.map_cons, List.sum_cons]
      omega
    | succ i =>
      have := ih h
      simp only [List.set_cons_succ, List.map_cons, List.sum_cons]
      omega

theorem sum_eq_zero_iff : (l.map f).sum = 0 ↔ ∀ b ∈ l, f b = 0 := by
  rw [List.sum_eq_zero_iff_forall_eq_nat, List.forall_mem_map]

theorem exists_of_sum_ne_zero (h : (l.map f).sum ≠ 0) :
    ∃ (i : ℕ) (b : β), l[i]? = some b ∧ f b ≠ 0 := by
  by_contra hnone
  apply h
  rw [sum_eq_zero_iff]
  intro b hb
  obtain ⟨i, hi⟩ := List.getElem?_of_mem hb
  by_contra hne
  exact hnone ⟨i, b, hi, hne⟩

end Sum

end Runs
