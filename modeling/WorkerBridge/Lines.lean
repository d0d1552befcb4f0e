import WorkerBridge.Text

namespace Text

structure Line where
  content : Text
  ending : Text
  deriving DecidableEq

def Line.text (l : Line) : Text := l.content ++ l.ending

def pushFront (p : Text) : List Line → List Line
  | [] => if p = [] then [] else [⟨p, []⟩]
  | l :: ls => ⟨p ++ l.content, l.ending⟩ :: ls

def lines : Text → List Line
  | [] => []
  | '\r' :: '\n' :: rest => ⟨[], ['\r', '\n']⟩ :: lines rest
  | '\n' :: rest => ⟨[], ['\n']⟩ :: lines rest
  | c :: rest => pushFront [c] (lines rest)

/-- The text of the lines, without the ending of the last one. -/
def joinLines : List Line → Text
  | [] => []
  | [l] => l.content
  | l :: l' :: ls => l.text ++ joinLines (l' :: ls)

theorem content_prefix_joinLines (l : Line) (ls : List Line) :
    l.content <+: joinLines (l :: ls) := by
  cases ls with
  | nil => exact List.prefix_refl _
  | cons l' ls => exact ⟨l.ending ++ joinLines (l' :: ls), by simp [joinLines, Line.text]⟩

theorem pushFront_append {p q : Text} (hq : q ≠ []) (ls : List Line) :
    pushFront (p ++ q) ls = pushFront p (pushFront q ls) := by
  cases ls with
  | nil => simp [pushFront, hq]
  | cons l ls => simp [pushFront]

theorem pushFront_nil (ls : List Line) : pushFront [] ls = ls := by
  cases ls <;> simp [pushFront]

/-- Induction over a text by its line endings. -/
@[elab_as_elim]
theorem lines_induction {motive : Text → Prop} (nil : motive [])
    (crlf : ∀ rest, motive rest → motive ('\r' :: '\n' :: rest))
    (lf : ∀ rest, motive rest → motive ('\n' :: rest))
    (other : ∀ c rest, (∀ rest', c = '\r' → rest = '\n' :: rest' → False) → (c = '\n' → False) →
      motive rest → motive (c :: rest)) (t : Text) : motive t := by
  induction t using lines.induct with
  | case1 => exact nil
  | case2 rest ih => exact crlf rest ih
  | case3 rest ih => exact lf rest ih
  | case4 c rest hr hn ih => exact other c rest hr hn ih

theorem lines_other {c : Char} {rest : Text}
    (hr : ∀ rest', c = '\r' → rest = '\n' :: rest' → False) (hn : c = '\n' → False) :
    lines (c :: rest) = pushFront [c] (lines rest) := by
  rw [lines]
  · exact hr
  · exact hn

theorem lines_append {p : Text} (h : ∀ c ∈ p, c ≠ '\r' ∧ c ≠ '\n') (t : Text) :
    lines (p ++ t) = pushFront p (lines t) := by
  induction p with
  | nil => exact (pushFront_nil _).symm
  | cons c p ih =>
    obtain ⟨hr, hn⟩ := h c List.mem_cons_self
    have hp := ih fun d hd => h d (List.mem_cons_of_mem _ hd)
    have hc : lines (c :: (p ++ t)) = pushFront [c] (lines (p ++ t)) :=
      lines_other (fun rest he => absurd he hr) hn
    rw [List.cons_append, hc, hp]
    by_cases hpn : p = []
    · rw [hpn, pushFront_nil]
    · rw [← pushFront_append hpn, List.singleton_append]

theorem eq_nil_of_lines {t : Text} (h : lines t = []) : t = [] := by
  induction t using lines_induction with
  | nil => rfl
  | crlf rest => cases h
  | lf rest => cases h
  | other c rest hr hn _ =>
    rw [lines_other hr hn] at h
    cases hl : lines rest <;> simp [hl, pushFront] at h

theorem eq_of_lines {t : Text} {l : Line} {ls : List Line} (h : lines t = l :: ls) :
    t = l.content ∧ l.ending = [] ∧ ls = [] ∨
      ∃ rest, t = l.content ++ l.ending ++ rest ∧
        (l.ending = ['\r', '\n'] ∨ l.ending = ['\n']) ∧ ls = lines rest := by
  induction t using lines_induction generalizing l ls with
  | nil => cases h
  | crlf rest =>
    obtain ⟨rfl, rfl⟩ := List.cons.inj h
    exact Or.inr ⟨rest, rfl, Or.inl rfl, rfl⟩
  | lf rest =>
    obtain ⟨rfl, rfl⟩ := List.cons.inj h
    exact Or.inr ⟨rest, rfl, Or.inr rfl, rfl⟩
  | other c rest hr hn ih =>
    rw [lines_other hr hn] at h
    cases hl : lines rest with
    | nil =>
      rw [hl] at h
      obtain ⟨rfl, rfl⟩ := List.cons.inj h
      exact Or.inl ⟨congrArg (c :: ·) (eq_nil_of_lines hl), rfl, rfl⟩
    | cons l' ls' =>
      rw [hl] at h
      obtain ⟨rfl, rfl⟩ := List.cons.inj h
      rcases ih hl with ⟨hc, he, hls⟩ | ⟨rest', ht, he, hls⟩
      · exact Or.inl ⟨congrArg (c :: ·) hc, he, hls⟩
      · exact Or.inr ⟨rest', congrArg (c :: ·) ht, he, hls⟩

end Text
