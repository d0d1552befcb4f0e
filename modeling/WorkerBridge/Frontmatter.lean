import WorkerBridge.Permissions
import WorkerBridge.Regex
import WorkerBridge.Lines

namespace WorkerBridge

open Text (Line lines joinLines)

section Pattern
open Regex

def blanks : Regex Char String := greedy isBlank
def dash : Regex Char String := symbol (· == '-')
def dashes : Regex Char String := dash ++ dash ++ dash
def delimiterRe : Regex Char String := blanks ++ dashes ++ blanks
def newlineRe : Regex Char String := optional (symbol (· == '\r')) ++ symbol (· == '\n')

def bodyRe : Regex Char String := group "body" (lazy fun _ => true)
def closingRe : Regex Char String := newlineRe ++ (delimiterRe ++ alt newlineRe endOfText)

/-- `_FRONTMATTER_RE`, matched from the start of the prompt, which is what `\A` asks. -/
def frontmatterRe : Regex Char String :=
  optional (symbol (· == '\uFEFF')) ++ (delimiterRe ++ (newlineRe ++ (bodyRe ++ closingRe)))

variable {β : Type*} {t : Text} {g : Groups Char String}
  {k : Groups Char String → Text → Option β}

theorem newline_of_isBlank {c : Char} {t : Text} (hc : isBlank c = true) :
    newline (c :: t) = none := by
  unfold newline
  split
  · next h => exact absurd ((List.cons.inj h).1 ▸ hc) (by decide)
  · next h => exact absurd ((List.cons.inj h).1 ▸ hc) (by decide)
  · rfl

theorem exec_newlineRe : exec newlineRe t g k = (newline t).bind (k g) := by
  unfold newlineRe
  rw [exec_append]
  cases t with
  | nil => rfl
  | cons c rest =>
    by_cases hr : c = '\r'
    · subst hr
      cases rest with
      | nil => rfl
      | cons d rest =>
        by_cases hn : d = '\n'
        · subst hn
          simp [exec, newline]
        · simp [exec, newline, hn]
    · by_cases hn : c = '\n'
      · subst hn
        simp [exec, newline]
      · simp [exec, newline, hr, hn]

theorem exec_dashes : exec dashes t g k = match t with
    | '-' :: '-' :: '-' :: rest => k g rest
    | _ => none := by
  unfold dashes
  rw [exec_append, exec_append]
  split
  · rfl
  · next hne =>
    match t with
    | [] => rfl
    | [c] => simp [dash, exec]
    | [c, d] => simp [dash, exec]
    | c :: d :: e :: rest =>
      have hcde : c = '-' → d = '-' → e ≠ '-' := by
        rintro rfl rfl rfl
        exact hne rest rfl
      simp only [dash, exec, beq_iff_eq, ite_eq_right_iff]
      exact fun hc hd he => absurd he (hcde hc hd)

theorem exec_delimiterRe (hk : ∀ c t', isBlank c = true → k g (c :: t') = none) :
    exec delimiterRe t g k = (delimiter t).bind (k g) := by
  unfold delimiterRe delimiter
  have hafter : ∀ t', exec blanks t' g k = k g (t'.dropWhile isBlank) := fun t' => exec_greedy hk
  have hbefore : ∀ c t', isBlank c = true → exec (dashes ++ blanks) (c :: t') g k = none := by
    intro c t' hc
    have hdash : c ≠ '-' := by
      rintro rfl
      exact absurd hc (by decide)
    rw [exec_append, exec_dashes]
    split
    · next h => exact absurd (List.cons.inj h).1 hdash
    · rfl
  have hseq : exec blanks t g (fun g' t' => exec (dashes ++ blanks) t' g' k) =
      exec (dashes ++ blanks) (t.dropWhile isBlank) g k := exec_greedy hbefore
  rw [exec_append, exec_append]
  refine hseq.trans ?_
  rw [exec_append, exec_dashes]
  split
  · next rest hd =>
    rw [hd]
    exact hafter rest
  · next hne =>
    split
    · next rest hd => exact absurd hd (hne rest)
    · rfl

theorem exec_closingRe :
    exec closingRe t g (fun g' _ => some g') = if closes t then some g else none := by
  have hend : ∀ t', exec (alt newlineRe endOfText) t' g (fun g' _ => some g') =
      if t'.isEmpty || (newline t').isSome then some g else none := by
    intro t'
    rw [exec, exec_newlineRe]
    cases t' with
    | nil => rfl
    | cons c t' => cases newline (c :: t') <;> rfl
  have hdelim : ∀ t', exec (delimiterRe ++ alt newlineRe endOfText) t' g (fun g' _ => some g') =
      (delimiter t').bind fun t' => if t'.isEmpty || (newline t').isSome then some g else none := by
    intro t'
    rw [exec_append, exec_delimiterRe]
    · simp only [hend]
    · intro c t' hc
      rw [hend, newline_of_isBlank hc]
      rfl
  unfold closingRe closes
  rw [exec_append, exec_newlineRe]
  simp only [hdelim]
  rw [← Option.bind_assoc]
  cases (newline t).bind delimiter <;> rfl

theorem frontmatterBody_eq_shortest (t : Text) : frontmatterBody t = shortest closes t := by
  induction t with
  | nil => rfl
  | cons c t ih => rw [frontmatterBody, shortest, ih]

/-- The pattern finds what `frontmatterMatch` computes. -/
theorem matchGroups_frontmatterRe (prompt : Text) :
    frontmatterRe.matchGroups prompt =
      (frontmatterMatch prompt).map fun body => [("body", body)] := by
  have hbody : ∀ t : Text, exec (bodyRe ++ closingRe) t [] (fun g _ => some g) =
      (frontmatterBody t).map fun body => [("body", body)] := by
    intro t
    rw [exec_append, frontmatterBody_eq_shortest]
    exact exec_group_lazy fun body t' => exec_closingRe
  have hline : ∀ t : Text, exec (newlineRe ++ (bodyRe ++ closingRe)) t [] (fun g _ => some g) =
      ((newline t).bind frontmatterBody).map fun body => [("body", body)] := by
    intro t
    rw [exec_append, exec_newlineRe, Option.map_bind]
    simp only [hbody]
    rfl
  have hopen : ∀ t : Text,
      exec (delimiterRe ++ (newlineRe ++ (bodyRe ++ closingRe))) t [] (fun g _ => some g) =
      (((delimiter t).bind newline).bind frontmatterBody).map fun body => [("body", body)] := by
    intro t
    rw [exec_append, exec_delimiterRe, Option.bind_assoc, Option.map_bind]
    · simp only [hline]
      rfl
    · intro c t' hc
      rw [hline, newline_of_isBlank hc]
      rfl
  unfold matchGroups frontmatterRe frontmatterMatch
  rw [exec_append, exec]
  simp only [hopen]
  unfold dropByteOrderMark
  split
  · next rest =>
    have hmark : delimiter ('\uFEFF' :: rest) = none := rfl
    rw [exec_symbol_cons, hmark, hopen]
    exact Option.or_none
  · next hne =>
    rw [exec_symbol_eq_none, Option.none_or]
    intro c rest ht
    exact beq_false_of_ne fun hc => hne rest (hc ▸ ht)

end Pattern

/-- The line is `---`, with spaces or tabs around it. -/
def IsDelimiterLine (l : Line) : Prop :=
  ∃ before after, (∀ c ∈ before, isBlank c = true) ∧ (∀ c ∈ after, isBlank c = true) ∧
    l.content = before ++ ['-', '-', '-'] ++ after

theorem delimiter_append {before after rest : Text} (hb : ∀ c ∈ before, isBlank c = true)
    (ha : ∀ c ∈ after, isBlank c = true) (hr : ∀ c, rest.head? = some c → isBlank c = false) :
    delimiter (before ++ ['-', '-', '-'] ++ after ++ rest) = some rest := by
  have hrest : rest.dropWhile isBlank = rest := by
    cases rest with
    | nil => rfl
    | cons c rest => exact List.dropWhile_cons_of_neg (by simp [hr c rfl])
  have hopen : (before ++ ['-', '-', '-'] ++ after ++ rest).dropWhile isBlank =
      '-' :: '-' :: '-' :: (after ++ rest) := by
    rw [List.append_assoc, List.append_assoc, List.dropWhile_append_of_pos hb]
    rfl
  unfold delimiter
  rw [hopen]
  exact congrArg some ((List.dropWhile_append_of_pos ha).trans hrest)

theorem eq_of_delimiter {t rest : Text} (h : delimiter t = some rest) :
    ∃ before after, (∀ c ∈ before, isBlank c = true) ∧ (∀ c ∈ after, isBlank c = true) ∧
      t = before ++ ['-', '-', '-'] ++ after ++ rest := by
  unfold delimiter at h
  split at h
  · next tail hd =>
    obtain rfl := Option.some.inj h
    refine ⟨t.takeWhile isBlank, tail.takeWhile isBlank, fun c => List.mem_takeWhile_imp,
      fun c => List.mem_takeWhile_imp, ?_⟩
    calc t = t.takeWhile isBlank ++ t.dropWhile isBlank := List.takeWhile_append_dropWhile.symm
      _ = _ := by
        rw [hd, List.append_assoc, List.append_assoc, List.takeWhile_append_dropWhile]
        rfl
  · cases h

theorem eq_of_newline {t rest : Text} (h : newline t = some rest) :
    t = '\r' :: '\n' :: rest ∨ t = '\n' :: rest := by
  unfold newline at h
  split at h
  · exact Or.inl (Option.some.inj h ▸ rfl)
  · exact Or.inr (Option.some.inj h ▸ rfl)
  · cases h

theorem isDelimiterLine_iff (l : Line) : IsDelimiterLine l ↔ delimiter l.content = some [] := by
  constructor
  · rintro ⟨before, after, hb, ha, he⟩
    rw [he, ← List.append_nil (before ++ ['-', '-', '-'] ++ after)]
    exact delimiter_append hb ha fun c hc => nomatch hc
  · intro h
    obtain ⟨before, after, hb, ha, he⟩ := eq_of_delimiter h
    exact ⟨before, after, hb, ha, he.trans (List.append_nil _)⟩

instance (l : Line) : Decidable (IsDelimiterLine l) :=
  decidable_of_iff _ (isDelimiterLine_iff l).symm

theorem lines_of_newline {t rest : Text} (h : newline t = some rest) :
    ∃ e, lines t = ⟨[], e⟩ :: lines rest ∧
      frontmatterBody t = if closes t then some [] else (frontmatterBody rest).map (e ++ ·) := by
  rcases eq_of_newline h with rfl | rfl
  · refine ⟨['\r', '\n'], rfl, ?_⟩
    have hcloses : closes ('\n' :: rest) = closes ('\r' :: '\n' :: rest) := rfl
    rw [frontmatterBody, frontmatterBody, hcloses]
    split
    · rfl
    · rw [Option.map_map]
      rfl
  · exact ⟨['\n'], rfl, rfl⟩

theorem newline_eq_none {c : Char} {rest : Text} (hr : ∀ rest', c = '\r' → rest ≠ '\n' :: rest')
    (hn : c ≠ '\n') : newline (c :: rest) = none := by
  unfold newline
  split
  · next rest' h => exact absurd (List.cons.inj h).2 (hr rest' (List.cons.inj h).1)
  · next h => exact absurd (List.cons.inj h).1 hn
  · rfl

theorem lines_of_delimiter {t rest : Text} (h : delimiter t = some rest) :
    ∃ p, p ≠ [] ∧ lines t = Text.pushFront p (lines rest) ∧ ∀ e, IsDelimiterLine ⟨p, e⟩ := by
  obtain ⟨before, after, hb, ha, rfl⟩ := eq_of_delimiter h
  have hblank : ∀ c, isBlank c = true → c ≠ '\r' ∧ c ≠ '\n' := by
    intro c hc
    constructor <;> rintro rfl <;> exact absurd hc (by decide)
  refine ⟨before ++ ['-', '-', '-'] ++ after, by simp, Text.lines_append ?_ rest,
    fun e => ⟨before, after, hb, ha, rfl⟩⟩
  intro c hc
  rcases List.mem_append.mp hc with hc | hc
  · rcases List.mem_append.mp hc with hc | hc
    · exact hblank c (hb c hc)
    · obtain rfl : c = '-' := by simpa using hc
      decide
  · exact hblank c (ha c hc)

theorem delimiter_of_lines {t : Text} {l : Line} {ls : List Line} (h : lines t = l :: ls)
    (hd : IsDelimiterLine l) : delimiter t = some [] ∧ ls = [] ∨
      ∃ r rest, delimiter t = some r ∧ newline r = some rest ∧ ls = lines rest := by
  rcases Text.eq_of_lines h with ⟨ht, -, hls⟩ | ⟨rest, ht, hend, hls⟩
  · exact Or.inl ⟨ht ▸ (isDelimiterLine_iff l).mp hd, hls⟩
  · obtain ⟨before, after, hb, ha, he⟩ := hd
    rw [List.append_assoc, he] at ht
    refine Or.inr ⟨l.ending ++ rest, rest, ?_, ?_, hls⟩
    · rw [ht]
      apply delimiter_append hb ha
      intro c hc
      rcases hend with he | he <;> rw [he] at hc <;> cases hc <;> rfl
    · rcases hend with he | he <;> rw [he] <;> rfl

theorem closes_iff {t rest : Text} (h : newline t = some rest) :
    closes t = true ↔ ∃ l ls, lines rest = l :: ls ∧ IsDelimiterLine l := by
  unfold closes
  rw [h, Option.bind_some]
  constructor
  · intro hc
    cases hd : delimiter rest with
    | none => rw [hd] at hc; cases hc
    | some r =>
      obtain ⟨p, hp, hlines, hdel⟩ := lines_of_delimiter hd
      rw [hlines]
      rw [hd] at hc
      rcases Bool.or_eq_true_iff.mp hc with hr | hr
      · rw [List.isEmpty_iff.mp hr]
        exact ⟨⟨p, []⟩, [], if_neg hp, hdel []⟩
      · obtain ⟨r', hn⟩ := Option.isSome_iff_exists.mp hr
        obtain ⟨e, he, -⟩ := lines_of_newline hn
        rw [he]
        exact ⟨⟨p ++ [], e⟩, lines r', rfl, (List.append_nil p).symm ▸ hdel e⟩
  · rintro ⟨l, ls, hlines, hdel⟩
    rcases delimiter_of_lines hlines hdel with ⟨hd, -⟩ | ⟨r, rest', hd, hn, -⟩
    · rw [hd]
      rfl
    · rw [hd]
      simp [hn]

/-- The body of the block, when its lines begin after the opening delimiter.  The first of
them is part of the body whatever it is. -/
def blockBody : List Line → Option Text
  | [] => none
  | [_] => none
  | l :: l' :: ls =>
    if IsDelimiterLine l' then some l.content else (blockBody (l' :: ls)).map (l.text ++ ·)

theorem blockBody_pushFront (p : Text) (ls : List Line) :
    blockBody (Text.pushFront p ls) = (blockBody ls).map (p ++ ·) := by
  match ls with
  | [] => by_cases hp : p = [] <;> simp [Text.pushFront, hp, blockBody]
  | [l] => rfl
  | l :: l' :: ls =>
    simp only [Text.pushFront, blockBody]
    split
    · rfl
    · rw [Option.map_map]
      exact congrArg (Option.map · _) (funext fun body => by simp [Line.text])

theorem blockBody_cons_of_delimiter {l : Line} {ls : List Line}
    (h : ∃ l' ls', ls = l' :: ls' ∧ IsDelimiterLine l') : blockBody (l :: ls) = some l.content := by
  obtain ⟨l', ls', rfl, hd⟩ := h
  exact if_pos hd

theorem blockBody_cons_of_not_delimiter {l : Line} {ls : List Line}
    (h : ¬ ∃ l' ls', ls = l' :: ls' ∧ IsDelimiterLine l') :
    blockBody (l :: ls) = (blockBody ls).map (l.text ++ ·) := by
  cases ls with
  | nil => rfl
  | cons l' ls => exact if_neg fun hd => h ⟨l', ls, rfl, hd⟩

theorem frontmatterBody_eq_blockBody (t : Text) : frontmatterBody t = blockBody (lines t) := by
  have hline : ∀ t rest : Text, newline t = some rest →
      frontmatterBody rest = blockBody (lines rest) → frontmatterBody t = blockBody (lines t) := by
    intro t rest h ih
    obtain ⟨e, hlines, hbody⟩ := lines_of_newline h
    rw [hlines, hbody, ih]
    by_cases hd : ∃ l ls, lines rest = l :: ls ∧ IsDelimiterLine l
    · rw [if_pos ((closes_iff h).mpr hd), blockBody_cons_of_delimiter hd]
    · rw [if_neg fun hc => hd ((closes_iff h).mp hc), blockBody_cons_of_not_delimiter hd]
      rfl
  induction t using Text.lines_induction with
  | nil => rfl
  | crlf rest ih => exact hline _ rest rfl ih
  | lf rest ih => exact hline _ rest rfl ih
  | other c rest hr hn ih =>
    have hclose : closes (c :: rest) = false := by
      unfold closes
      rw [newline_eq_none hr hn]
      rfl
    rw [Text.lines_other hr hn, blockBody_pushFront, frontmatterBody, hclose,
      if_neg Bool.false_ne_true, ih]
    rfl

theorem blockBody_eq_some_iff {ls : List Line} {body : Text} :
    blockBody ls = some body ↔ ∃ l between closing after, ls = l :: (between ++ closing :: after) ∧
      IsDelimiterLine closing ∧ (∀ m ∈ between, ¬ IsDelimiterLine m) ∧
      body = joinLines (l :: between) := by
  induction ls generalizing body with
  | nil => simp [blockBody]
  | cons l ls ih =>
    by_cases hd : ∃ l' ls', ls = l' :: ls' ∧ IsDelimiterLine l'
    · rw [blockBody_cons_of_delimiter hd]
      obtain ⟨closing, after, rfl, hc⟩ := hd
      constructor
      · rintro ⟨⟩
        exact ⟨l, [], closing, after, rfl, hc, by simp, rfl⟩
      · rintro ⟨l', between, closing', after', he, -, hb, rfl⟩
        obtain ⟨rfl, htail⟩ := List.cons.inj he
        cases between with
        | nil => rfl
        | cons m between =>
          exact absurd ((List.cons.inj htail).1 ▸ hc) (hb m List.mem_cons_self)
    · rw [blockBody_cons_of_not_delimiter hd, Option.map_eq_some_iff]
      constructor
      · rintro ⟨rest, hrest, rfl⟩
        obtain ⟨m, between, closing, after, rfl, hc, hb, rfl⟩ := ih.mp hrest
        refine ⟨l, m :: between, closing, after, rfl, hc, ?_, rfl⟩
        exact List.forall_mem_cons.mpr ⟨fun hm => hd ⟨m, _, rfl, hm⟩, hb⟩
      · rintro ⟨l', between, closing, after, he, hc, hb, rfl⟩
        obtain ⟨rfl, rfl⟩ := List.cons.inj he
        cases between with
        | nil => exact absurd ⟨closing, after, rfl, hc⟩ hd
        | cons m between =>
          refine ⟨joinLines (m :: between), ih.mpr ⟨m, between, closing, after, rfl, hc, ?_, rfl⟩, rfl⟩
          exact fun n hn => hb n (List.mem_cons_of_mem _ hn)

/-- The block of the prompt read line by line, with the body it has. -/
def FrontmatterExtent (prompt body : Text) : Prop :=
  ∃ first between closing after,
    lines (dropByteOrderMark prompt) = first :: (between ++ closing :: after) ∧
      IsDelimiterLine first ∧ IsDelimiterLine closing ∧
      (∀ l ∈ between, ¬ IsDelimiterLine l) ∧ body = joinLines between

/-- The pattern matches where there is a block, and captures its body. -/
def FoundByLines (prompt : Text) : Prop :=
  ((frontmatterRe.matchGroups prompt).isSome = true ↔ ∃ body, FrontmatterExtent prompt body) ∧
    ∀ groups body, frontmatterRe.matchGroups prompt = some groups →
      (groups.lookup "body" = some body ↔ FrontmatterExtent prompt body)

/-- The second line of the prompt closes the block that the first one opens. -/
def AdjacentDelimiters (prompt : Text) : Prop :=
  ∃ first second after, lines (dropByteOrderMark prompt) = first :: second :: after ∧
    IsDelimiterLine first ∧ IsDelimiterLine second

theorem frontmatterMatch_eq_some_iff {prompt body : Text} :
    frontmatterMatch prompt = some body ↔ ∃ first ls,
      lines (dropByteOrderMark prompt) = first :: ls ∧ IsDelimiterLine first ∧
        blockBody ls = some body := by
  unfold frontmatterMatch
  constructor
  · intro h
    obtain ⟨rest, hrest, hbody⟩ := Option.bind_eq_some_iff.mp h
    obtain ⟨r, hd, hn⟩ := Option.bind_eq_some_iff.mp hrest
    obtain ⟨p, -, hlines, hdel⟩ := lines_of_delimiter hd
    obtain ⟨e, he, -⟩ := lines_of_newline hn
    rw [hlines, he]
    refine ⟨⟨p ++ [], e⟩, lines rest, rfl, (List.append_nil p).symm ▸ hdel e, ?_⟩
    rw [← frontmatterBody_eq_blockBody, hbody]
  · rintro ⟨first, ls, hlines, hdel, hbody⟩
    rcases delimiter_of_lines hlines hdel with ⟨-, rfl⟩ | ⟨r, rest, hd, hn, rfl⟩
    · cases hbody
    · rw [hd, Option.bind_some, hn, Option.bind_some, frontmatterBody_eq_blockBody, hbody]

/-- Without adjacent delimiters the pattern finds the block. -/
theorem frontmatterMatch_iff_extent {prompt : Text} (h : ¬ AdjacentDelimiters prompt)
    (body : Text) : frontmatterMatch prompt = some body ↔ FrontmatterExtent prompt body := by
  rw [frontmatterMatch_eq_some_iff]
  constructor
  · rintro ⟨first, ls, hlines, hfirst, hbody⟩
    obtain ⟨l, between, closing, after, rfl, hc, hb, rfl⟩ := blockBody_eq_some_iff.mp hbody
    refine ⟨first, l :: between, closing, after, hlines, hfirst, hc, ?_, rfl⟩
    exact List.forall_mem_cons.mpr ⟨fun hl => h ⟨first, l, _, hlines, hfirst, hl⟩, hb⟩
  · rintro ⟨first, between, closing, after, hlines, hfirst, hc, hb, rfl⟩
    cases between with
    | nil => exact absurd ⟨first, closing, after, hlines, hfirst, hc⟩ h
    | cons l between =>
      refine ⟨first, _, hlines, hfirst, blockBody_eq_some_iff.mpr ?_⟩
      exact ⟨l, between, closing, after, rfl, hc, fun m hm => hb m (List.mem_cons_of_mem _ hm), rfl⟩

/-- Between adjacent delimiters there is nothing, and the pattern does not find that. -/
theorem not_found_of_adjacent {prompt : Text} (h : AdjacentDelimiters prompt) :
    FrontmatterExtent prompt [] ∧ frontmatterMatch prompt ≠ some [] := by
  obtain ⟨first, second, after, hlines, hfirst, hsecond⟩ := h
  refine ⟨⟨first, [], second, after, hlines, hfirst, hsecond, by simp, rfl⟩, fun hm => ?_⟩
  obtain ⟨first', ls, hlines', -, hbody⟩ := frontmatterMatch_eq_some_iff.mp hm
  obtain ⟨l, between, closing, after', rfl, -, -, hnil⟩ := blockBody_eq_some_iff.mp hbody
  obtain ⟨-, htail⟩ := List.cons.inj (hlines.symm.trans hlines')
  obtain ⟨rfl, -⟩ := List.cons.inj htail
  obtain ⟨before, blanksAfter, -, -, hcontent⟩ := hsecond
  have hempty : second.content = [] :=
    List.prefix_nil.mp (hnil ▸ Text.content_prefix_joinLines second between)
  rw [hcontent] at hempty
  simp at hempty

/-- The block is found as the lines give it, unless two delimiters are adjacent. -/
theorem found_by_lines_iff (prompt : Text) : FoundByLines prompt ↔ ¬ AdjacentDelimiters prompt := by
  unfold FoundByLines
  rw [matchGroups_frontmatterRe]
  constructor
  · rintro ⟨hmatch, hbody⟩ hadj
    obtain ⟨hextent, hne⟩ := not_found_of_adjacent hadj
    obtain ⟨groups, hgroups⟩ := Option.isSome_iff_exists.mp (hmatch.mpr ⟨[], hextent⟩)
    have hnil := (hbody groups [] hgroups).mpr hextent
    obtain ⟨body, hfound, rfl⟩ := Option.map_eq_some_iff.mp hgroups
    exact hne (hfound.trans hnil)
  · intro hadj
    have hiff := frontmatterMatch_iff_extent hadj
    constructor
    · rw [Option.isSome_map, Option.isSome_iff_exists]
      exact exists_congr hiff
    · intro groups body hgroups
      obtain ⟨found, hfound, rfl⟩ := Option.map_eq_some_iff.mp hgroups
      rw [← hiff body, hfound]
      rfl

/-- The block is empty, and the task text after it is read as frontmatter. -/
theorem adjacent_delimiters_read_on :
    frontmatterRe.matchGroups "---\n---\nworking_directory: /srv\n---\n".toList =
        some [("body", "---\nworking_directory: /srv".toList)] ∧
      FrontmatterExtent "---\n---\nworking_directory: /srv\n---\n".toList [] ∧
      ¬ FoundByLines "---\n---\nworking_directory: /srv\n---\n".toList := by
  have hfound : frontmatterRe.matchGroups "---\n---\nworking_directory: /srv\n---\n".toList =
      some [("body", "---\nworking_directory: /srv".toList)] := by decide
  have hextent : FrontmatterExtent "---\n---\nworking_directory: /srv\n---\n".toList [] :=
    ⟨⟨"---".toList, "\n".toList⟩, [], ⟨"---".toList, "\n".toList⟩,
      lines "working_directory: /srv\n---\n".toList, by decide, by decide, by decide, by simp, rfl⟩
  refine ⟨hfound, hextent, fun h => ?_⟩
  exact absurd ((h.2 _ _ hfound).mpr hextent) (by decide)

end WorkerBridge
