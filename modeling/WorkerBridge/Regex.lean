import Mathlib.Data.List.Basic

inductive Regex (α κ : Type*)
  | symbol (p : α → Bool)
  | greedy (p : α → Bool)
  | lazy (p : α → Bool)
  | optional (r : Regex α κ)
  | seq (r s : Regex α κ)
  | alt (r s : Regex α κ)
  | group (name : κ) (r : Regex α κ)
  | endOfText

namespace Regex

variable {α κ β : Type*}

instance : Append (Regex α κ) := ⟨seq⟩

/-- The texts of the groups that were closed so far, the last one first. -/
abbrev Groups (α κ : Type*) := List (κ × List α)

/-- `p*`: as many symbols as possible first. -/
def execGreedy (p : α → Bool) : List α → (List α → Option β) → Option β
  | [], k => k []
  | c :: t, k => if p c then (execGreedy p t k).or (k (c :: t)) else k (c :: t)

/-- `p*?`: as few symbols as possible first. -/
def execLazy (p : α → Bool) : List α → (List α → Option β) → Option β
  | [], k => k []
  | c :: t, k => (k (c :: t)).or (if p c then execLazy p t k else none)

/-- The ways in which the expression can match at the start of the text, in the order of their
priority, up to the first for which the rest of the pattern, `k`, answers. -/
def exec : Regex α κ → List α → Groups α κ → (Groups α κ → List α → Option β) → Option β
  | symbol _, [], _, _ => none
  | symbol p, c :: t, g, k => if p c then k g t else none
  | greedy p, t, g, k => execGreedy p t (k g)
  | lazy p, t, g, k => execLazy p t (k g)
  | optional r, t, g, k => (exec r t g k).or (k g t)
  | seq r s, t, g, k => exec r t g fun g' t' => exec s t' g' k
  | alt r s, t, g, k => (exec r t g k).or (exec s t g k)
  | group name r, t, g, k =>
    exec r t g fun g' t' => k ((name, t.take (t.length - t'.length)) :: g') t'
  | endOfText, [], g, k => k g []
  | endOfText, _ :: _, _, _ => none

def matchGroups (r : Regex α κ) (t : List α) : Option (Groups α κ) :=
  exec r t [] fun g _ => some g

def shortest (ok : List α → Bool) : List α → Option (List α)
  | [] => if ok [] then some [] else none
  | c :: t => if ok (c :: t) then some [] else (shortest ok t).map (c :: ·)

variable {p : α → Bool} {r s : Regex α κ} {t : List α} {g : Groups α κ}
  {k : Groups α κ → List α → Option β}

theorem exec_append : exec (r ++ s) t g k = exec r t g fun g' t' => exec s t' g' k := rfl

theorem exec_symbol_cons {c : α} :
    exec (symbol p) (c :: t) g k = if p c then k g t else none := rfl

theorem exec_symbol_eq_none (h : ∀ c t', t = c :: t' → p c = false) :
    exec (symbol p) t g k = none := by
  cases t with
  | nil => rfl
  | cons c t => rw [exec_symbol_cons, h c t rfl, if_neg Bool.false_ne_true]

/-- A greedy class that the rest of the pattern cannot begin with takes all it can. -/
theorem exec_greedy (hk : ∀ c t', p c = true → k g (c :: t') = none) :
    exec (greedy p) t g k = k g (t.dropWhile p) := by
  unfold exec
  induction t with
  | nil => rfl
  | cons c t ih =>
    rw [execGreedy, List.dropWhile_cons]
    split
    · next hc => rw [ih, hk c t hc, Option.or_none]
    · rfl

/-- A group around a lazy class takes the shortest prefix after which the rest of the
pattern answers. -/
theorem exec_group_lazy {name : κ} {ok : List α → Bool} {answer : List α → β}
    (hk : ∀ body t', k ((name, body) :: g) t' = if ok t' then some (answer body) else none) :
    exec (group name (lazy fun _ => true)) t g k = (shortest ok t).map answer := by
  suffices h : ∀ before after : List α,
      execLazy (fun _ => true) after (fun t' =>
        k ((name, (before ++ after).take ((before ++ after).length - t'.length)) :: g) t') =
      (shortest ok after).map fun body => answer (before ++ body) from h [] t
  intro before after
  induction after generalizing before with
  | nil =>
    rw [execLazy, hk, shortest]
    cases ok [] <;> simp
  | cons c after ih =>
    have htake : (before ++ c :: after).take ((before ++ c :: after).length - (c :: after).length) =
        before := by simp
    have hrest := ih (before ++ [c])
    simp only [List.append_assoc, List.singleton_append] at hrest
    rw [execLazy, hk, htake, if_pos rfl, hrest, shortest]
    cases ok (c :: after) <;> simp [Function.comp_def]

end Regex
