import Mathlib.Data.List.Destutter

namespace History

variable {α β : Type*} {R : α → α → Prop} {S : β → β → Prop}

theorem isChain_filterMap {f : α → Option β}
    (hf : ∀ a b x, R a b → f a = some x → ∃ y, f b = some y ∧ S x y) :
    ∀ {l : List α}, l.IsChain R → (l.filterMap f).IsChain S
  | [], _ => .nil
  | [a], _ => by
    cases ha : f a with
    | none => simp [ha]
    | some x => simp [ha]
  | a :: b :: l, h => by
    obtain ⟨hab, hrest⟩ := List.isChain_cons_cons.mp h
    have ih := isChain_filterMap hf hrest
    cases ha : f a with
    | none =>
      rw [List.filterMap_cons_none ha]
      exact ih
    | some x =>
      obtain ⟨y, hy, hxy⟩ := hf a b x hab ha
      rw [List.filterMap_cons_some ha]
      rw [List.filterMap_cons_some hy] at ih ⊢
      exact List.isChain_cons_cons.mpr ⟨hxy, ih⟩

section

variable [DecidableEq β]

theorem isChain_destutter {l : List β} (h : l.IsChain fun x y => x = y ∨ S x y) :
    (l.destutter (· ≠ ·)).IsChain S := by
  have key : ∀ (l : List β) (a : β), (a :: l).IsChain (fun x y => x = y ∨ S x y) →
      (l.destutter' (· ≠ ·) a).IsChain S ∧
        ∀ x, S x a → (x :: l.destutter' (· ≠ ·) a).IsChain S := by
    intro l
    induction l with
    | nil =>
      intro a _
      exact ⟨List.isChain_singleton a, fun x hx => List.isChain_pair.mpr hx⟩
    | cons b l ih =>
      intro a hl
      obtain ⟨hab, hrest⟩ := List.isChain_cons_cons.mp hl
      by_cases he : a = b
      · subst he
        rw [List.destutter'_cons_neg l (by simp)]
        exact ih a hrest
      · rw [List.destutter'_cons_pos l he]
        have hb := (ih b hrest).2 a (hab.resolve_left he)
        exact ⟨hb, fun x hx => List.isChain_cons_cons.mpr ⟨hx, hb⟩⟩
  cases l with
  | nil => exact .nil
  | cons a l => exact (key l a h).1

end

/-- Somewhere in the list the value becomes `k`. -/
def enters [DecidableEq β] (k : β) : List β → Bool
  | a :: b :: l => (decide (a ≠ k) && decide (b = k)) || enters k (b :: l)
  | _ => false

theorem getLast?_of_stays {k a : β} {l : List β} (h : (a :: l).IsChain fun x y => x = k → y = k)
    (ha : a = k) : (a :: l).getLast? = some k := by
  induction l generalizing a with
  | nil => exact congrArg some ha
  | cons b l ih =>
    obtain ⟨hab, hrest⟩ := List.isChain_cons_cons.mp h
    simpa using ih hrest (hab ha)

theorem enters_iff [DecidableEq β] {k a : β} {l : List β}
    (h : (a :: l).IsChain fun x y => x = k → y = k) :
    enters k (a :: l) = true ↔ a ≠ k ∧ (a :: l).getLast? = some k := by
  induction l generalizing a with
  | nil =>
    simp only [enters, Bool.false_eq_true, List.getLast?_singleton, Option.some.injEq, false_iff]
    exact fun hk => hk.1 hk.2
  | cons b l ih =>
    obtain ⟨hab, hrest⟩ := List.isChain_cons_cons.mp h
    have hlast : (a :: b :: l).getLast? = (b :: l).getLast? := by simp
    simp only [enters, Bool.or_eq_true, Bool.and_eq_true, decide_eq_true_eq, ih hrest, hlast]
    constructor
    · rintro (⟨ha, hb⟩ | ⟨hb, he⟩)
      · -- From here on the value is `k` to the end.
        refine ⟨ha, ?_⟩
        exact getLast?_of_stays hrest hb
      · exact ⟨fun ha => hb (hab ha), he⟩
    · rintro ⟨ha, he⟩
      by_cases hb : b = k
      · exact Or.inl ⟨ha, hb⟩
      · exact Or.inr ⟨hb, he⟩

end History
