import Mathlib.Data.List.Nodup
import Mathlib.Data.List.Pairwise
import Mathlib.Data.List.Perm.Subperm

namespace Table

variable {ρ κ υ : Type*} (key : ρ → κ) (u : ρ → Option υ)

def Distinct (rows : List ρ) : Prop := rows.Pairwise fun a b => key a ≠ key b

def Unique (rows : List ρ) : Prop := rows.Pairwise fun a b => u a ≠ none → u a ≠ u b

variable {key u} {rows : List ρ} {r : ρ} {k : κ}

theorem distinct_iff_nodup : Distinct key rows ↔ (rows.map key).Nodup := by
  simp [Distinct, List.Nodup, List.pairwise_map]

theorem eq_of_key_eq {a b : ρ} (hd : Distinct key rows) (ha : a ∈ rows) (hb : b ∈ rows)
    (h : key a = key b) : a = b :=
  List.inj_on_of_nodup_map (distinct_iff_nodup.mp hd) ha hb h

theorem eq_of_unique_eq {a b : ρ} (hu : Unique u rows) (ha : a ∈ rows)
    (hb : b ∈ rows) (hne : u a ≠ none) (h : u a = u b) : a = b := by
  by_contra hab
  have : Std.Symm fun a b : ρ => u a ≠ none → u a ≠ u b :=
    ⟨fun _ _ hxy hy he => hxy (he ▸ hy) he.symm⟩
  exact List.Pairwise.forall hu ha hb hab hne h

theorem countP_le_length (p : ρ → Bool) (hd : Distinct key rows) {ks : List κ}
    (h : ∀ x ∈ rows, p x = true → key x ∈ ks) : rows.countP p ≤ ks.length := by
  have hn : ((rows.filter p).map key).Nodup := distinct_iff_nodup.mp (hd.filter p)
  have hs : (rows.filter p).map key ⊆ ks := by
    intro k hk
    obtain ⟨x, hx, rfl⟩ := List.mem_map.mp hk
    obtain ⟨hm, hp⟩ := List.mem_filter.mp hx
    exact h x hm hp
  have hl := (hn.subperm hs).length_le
  rwa [List.length_map, ← List.countP_eq_length_filter] at hl

variable [DecidableEq κ] (key)

def find (rows : List ρ) (k : κ) : Option ρ := rows.find? fun r => decide (key r = k)

/-- Put `r` in the place of the row with its key. -/
def replace (rows : List ρ) (r : ρ) : List ρ := rows.map fun x => if key x = key r then r else x

variable {key}

theorem mem_of_find (h : find key rows k = some r) : r ∈ rows ∧ key r = k := by
  refine ⟨List.mem_of_find?_eq_some h, ?_⟩
  simpa using List.find?_some h

theorem find_eq_none : find key rows k = none ↔ ∀ r ∈ rows, key r ≠ k := by
  simp [find]

theorem find_of_mem (hd : Distinct key rows) (h : r ∈ rows) : find key rows (key r) = some r := by
  cases hf : find key rows (key r) with
  | none => exact absurd rfl (find_eq_none.mp hf r h)
  | some x =>
    obtain ⟨hx, hk⟩ := mem_of_find hf
    rw [eq_of_key_eq hd hx h hk]

theorem find_replace : find key (replace key rows r) k =
    if k = key r then (find key rows k).map (fun _ => r) else find key rows k := by
  induction rows with
  | nil => simp [find, replace]
  | cons x xs ih =>
    simp only [find, replace, List.map_cons, List.find?_cons] at ih ⊢
    by_cases hx : key x = key r <;> by_cases hk : k = key r <;>
      by_cases hxk : key x = k <;> simp_all

theorem countP_replace (f : ρ → Bool) {old : ρ} (hd : Distinct key rows)
    (h : find key rows (key r) = some old) :
    (replace key rows r).countP f + (if f old then 1 else 0) =
      rows.countP f + if f r then 1 else 0 := by
  induction rows with
  | nil => simp [find] at h
  | cons x xs ih =>
    obtain ⟨hx, hxs⟩ := List.pairwise_cons.mp hd
    have hsplit : replace key (x :: xs) r = (if key x = key r then r else x) :: replace key xs r := rfl
    by_cases hk : key x = key r
    · -- No other row has the key.
      have hsame : replace key xs r = xs := by
        refine (List.map_congr_left fun y hy => ?_).trans (List.map_id' xs)
        exact if_neg fun he => hx y hy (hk.trans he.symm)
      have hold : x = old := by simpa [find, hk] using h
      rw [hsplit, hsame, if_pos hk, List.countP_cons, List.countP_cons, hold]
      omega
    · have hrest : find key xs (key r) = some old := by simpa [find, hk] using h
      have hcount := ih hxs hrest
      rw [hsplit, if_neg hk, List.countP_cons, List.countP_cons]
      omega

theorem map_key_replace : (replace key rows r).map key = rows.map key := by
  rw [replace, List.map_map]
  refine List.map_congr_left fun x _ => ?_
  simp only [Function.comp]
  split
  · next h => exact h.symm
  · rfl

theorem Distinct.replace (hd : Distinct key rows) : Distinct key (replace key rows r) := by
  rw [distinct_iff_nodup, map_key_replace]
  exact distinct_iff_nodup.mp hd

theorem Unique.replace (hu : Unique u rows) (hd : Distinct key rows)
    (hfree : ∀ x ∈ rows, key x ≠ key r → u r ≠ none → u x ≠ u r) :
    Unique u (replace key rows r) := by
  rw [Unique, Table.replace, List.pairwise_map]
  refine (List.Pairwise.and hu hd).imp_of_mem ?_
  intro a b ha hb hab
  split <;> split
  · next h1 h2 => exact absurd (h1.trans h2.symm) hab.2
  · next h1 h2 => exact fun hr he => hfree b hb h2 hr he.symm
  · next h1 h2 => exact fun hr he => hfree a ha h1 (he ▸ hr) he
  · exact hab.1

theorem find_append : find key (rows ++ [r]) k =
    (find key rows k).or (if key r = k then some r else none) := by
  rw [find, List.find?_append]
  congr 1
  by_cases h : key r = k <;> simp [h]

theorem Distinct.append (hd : Distinct key rows) (hfresh : find key rows (key r) = none) :
    Distinct key (rows ++ [r]) := by
  refine List.pairwise_append.mpr ⟨hd, List.pairwise_singleton _ _, ?_⟩
  intro a ha b hb
  rw [List.mem_singleton] at hb
  exact hb ▸ find_eq_none.mp hfresh a ha

theorem Unique.append (hu : Unique u rows) (hfree : ∀ x ∈ rows, u r ≠ none → u x ≠ u r) :
    Unique u (rows ++ [r]) := by
  refine List.pairwise_append.mpr ⟨hu, List.pairwise_singleton _ _, ?_⟩
  intro a ha b hb
  rw [List.mem_singleton] at hb
  subst hb
  exact fun hn he => hfree a ha (he ▸ hn) he

end Table
