import Mathlib.Data.List.Infix
import Mathlib.Data.List.Basic

namespace Glob

variable {α : Type*} {star : α}

/-- `q` is `p` with each `star` replaced by some list, possibly empty. -/
inductive Expands (star : α) : List α → List α → Prop
  | nil : Expands star [] []
  | star {p q : List α} (mid : List α) : Expands star p q → Expands star (star :: p) (mid ++ q)
  | literal {p q : List α} {a : α} : a ≠ star → Expands star p q → Expands star (a :: p) (a :: q)

theorem expands_self {p : List α} (h : star ∉ p) : Expands star p p := by
  induction p with
  | nil => exact Expands.nil
  | cons a p ih =>
    have ha : a ≠ star := fun he => h (he ▸ List.mem_cons_self)
    exact Expands.literal ha (ih fun hm => h (List.mem_cons_of_mem _ hm))

theorem eq_of_expands {p q : List α} (h : star ∉ p) (hq : Expands star p q) : q = p := by
  induction hq with
  | nil => rfl
  | star mid _ _ => exact absurd List.mem_cons_self h
  | literal _ _ ih => rw [ih fun hm => h (List.mem_cons_of_mem _ hm)]

theorem expands_nil_iff {p : List α} : Expands star p [] ↔ ∀ a ∈ p, a = star := by
  induction p with
  | nil => simp [Expands.nil]
  | cons a p ih =>
    constructor
    · intro h
      generalize hq : ([] : List α) = q at h
      cases h with
      | star mid hp =>
        obtain ⟨-, rfl⟩ := List.append_eq_nil_iff.mp hq.symm
        exact List.forall_mem_cons.mpr ⟨rfl, ih.mp hp⟩
      | literal ha hp => cases hq
    · intro h
      obtain ⟨rfl, hrest⟩ := List.forall_mem_cons.mp h
      exact Expands.star [] (ih.mpr hrest)

variable [DecidableEq α]

/-- `p` with `f i` in the place of the star at position `i`. -/
def fill (star : α) (f : ℕ → List α) (p : List α) : List α :=
  (p.mapIdx fun i a => if a = star then f i else [a]).flatten

theorem fill_cons (f : ℕ → List α) (a : α) (p : List α) :
    fill star f (a :: p) = (if a = star then f 0 else [a]) ++ fill star (fun i => f (i + 1)) p := by
  unfold fill
  rw [List.mapIdx_cons, List.flatten_cons]

theorem expands_iff_fill {p q : List α} : Expands star p q ↔ ∃ f, fill star f p = q := by
  constructor
  · intro h
    induction h with
    | nil => exact ⟨fun _ => [], rfl⟩
    | star mid _ ih =>
      obtain ⟨f, hf⟩ := ih
      refine ⟨fun i => i.casesOn mid f, ?_⟩
      rw [fill_cons, if_pos rfl]
      exact congrArg (mid ++ ·) hf
    | literal ha _ ih =>
      obtain ⟨f, hf⟩ := ih
      refine ⟨fun i => i.casesOn [] f, ?_⟩
      rw [fill_cons, if_neg ha]
      exact congrArg (_ :: ·) hf
  · rintro ⟨f, rfl⟩
    induction p generalizing f with
    | nil => exact Expands.nil
    | cons a p ih =>
      rw [fill_cons]
      by_cases ha : a = star
      · rw [if_pos ha, ha]
        exact Expands.star (f 0) (ih _)
      · rw [if_neg ha]
        exact Expands.literal ha (ih _)

def prefixMatch (star : α) : List α → List α → Bool
  | [], _ => true
  | head :: tail, candidate =>
    if candidate = [] ∧ (head :: tail).any (fun part => decide (part ≠ star)) then false
    else if head = star then
      (List.range (candidate.length + 1)).any fun index =>
        prefixMatch star tail (candidate.drop index)
    else match candidate with
      | [] => false
      | first :: rest => decide (head = first) && prefixMatch star tail rest

/-- The matcher accepts exactly the candidates that some expansion begins. -/
theorem prefixMatch_iff (p c : List α) :
    prefixMatch star p c = true ↔ ∃ q, Expands star p q ∧ q <+: c := by
  induction p generalizing c with
  | nil => exact iff_of_true rfl ⟨[], Expands.nil, List.nil_prefix⟩
  | cons head tail ih =>
    unfold prefixMatch
    split
    · next hstop =>
      -- An exhausted candidate begins only with the empty expansion.
      obtain ⟨rfl, hany⟩ := hstop
      refine iff_of_false Bool.false_ne_true ?_
      rintro ⟨q, hq, hpre⟩
      rw [List.prefix_nil.mp hpre, expands_nil_iff] at hq
      obtain ⟨a, ha, hne⟩ := List.any_eq_true.mp hany
      exact of_decide_eq_true hne (hq a ha)
    · split
      · next hhead =>
        subst hhead
        simp only [List.any_eq_true, List.mem_range]
        constructor
        · rintro ⟨index, -, hm⟩
          obtain ⟨q, hq, rest, hrest⟩ := (ih _).mp hm
          refine ⟨c.take index ++ q, Expands.star _ hq, rest, ?_⟩
          rw [List.append_assoc, hrest, List.take_append_drop]
        · rintro ⟨q, hq, rest, rfl⟩
          cases hq with
          | star mid hp =>
            refine ⟨mid.length, by simp only [List.length_append]; omega, (ih _).mpr ⟨_, hp, rest, ?_⟩⟩
            rw [List.append_assoc, List.drop_left]
          | literal ha _ => exact absurd rfl ha
      · next hhead =>
        cases c with
        | nil =>
          refine iff_of_false Bool.false_ne_true ?_
          rintro ⟨q, hq, hpre⟩
          rw [List.prefix_nil.mp hpre, expands_nil_iff] at hq
          exact hhead (hq head List.mem_cons_self)
        | cons first rest =>
          simp only [Bool.and_eq_true, decide_eq_true_eq]
          constructor
          · rintro ⟨rfl, hm⟩
            obtain ⟨q, hq, hpre⟩ := (ih _).mp hm
            exact ⟨head :: q, Expands.literal hhead hq, List.cons_prefix_cons.mpr ⟨rfl, hpre⟩⟩
          · rintro ⟨q, hq, hpre⟩
            cases hq with
            | star mid _ => exact absurd rfl hhead
            | literal _ hp =>
              obtain ⟨rfl, hpre'⟩ := List.cons_prefix_cons.mp hpre
              exact ⟨rfl, (ih _).mpr ⟨_, hp, hpre'⟩⟩

end Glob
