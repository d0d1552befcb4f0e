import Mathlib.Data.List.Basic

namespace Exposition

structure Sample where
  name : List Char
  labels : List (List Char × List Char)
  value : List Char
  deriving DecidableEq

def nameStart (c : Char) : Bool := c.isAlpha || c == '_' || c == ':'

def nameChar (c : Char) : Bool := nameStart c || c.isDigit

def labelStart (c : Char) : Bool := c.isAlpha || c == '_'

def labelChar (c : Char) : Bool := labelStart c || c.isDigit

/-- A nonempty text of characters `rest`, of which the first is one of `start`. -/
def isWord (start rest : Char → Bool) : List Char → Bool
  | [] => false
  | c :: cs => start c && cs.all rest

def escape (value : List Char) : List Char :=
  value.flatMap fun c =>
    if c = '\\' then ['\\', '\\']
    else if c = '"' then ['\\', '"']
    else if c = '\n' then ['\\', 'n']
    else [c]

def pairText (pair : List Char × List Char) : List Char :=
  pair.1 ++ ['=', '"'] ++ escape pair.2 ++ ['"']

def pairsText : List (List Char × List Char) → List Char
  | [] => []
  | [pair] => pairText pair
  | pair :: next :: rest => pairText pair ++ ',' :: pairsText (next :: rest)

def Sample.text (s : Sample) : List Char :=
  s.name ++ (if s.labels = [] then [] else '{' :: pairsText s.labels ++ ['}']) ++ ' ' :: s.value

structure Sample.WellFormed (s : Sample) : Prop where
  name : isWord nameStart nameChar s.name = true
  labels : ∀ pair ∈ s.labels, isWord labelStart labelChar pair.1 = true
  value : s.value ≠ [] ∧ ∀ c ∈ s.value, c ≠ ' ' ∧ c ≠ '\n'

inductive Entry
  | comment (text : List Char)
  | sample (s : Sample)

def Entry.text : Entry → List Char
  | comment text => '#' :: text
  | sample s => s.text

def Entry.sample? : Entry → Option Sample
  | comment _ => none
  | sample s => some s

def Entry.WellFormed : Entry → Prop
  | comment text => '\n' ∉ text
  | sample s => s.WellFormed

def pageText (entries : List Entry) : List Char := entries.flatMap fun e => e.text ++ ['\n']

inductive Phase
  | name
  | label (read : List Char)
  | opening (label : List Char)
  | quoted (label read : List Char)
  | escaped (label read : List Char)
  | closed
  | blank
  | value
  deriving DecidableEq

structure Reader where
  sample : Sample
  phase : Phase

def Reader.start : Reader := ⟨⟨[], [], []⟩, .name⟩

def Reader.step (r : Reader) (c : Char) : Option Reader :=
  match r.phase with
  | .name =>
    if (if r.sample.name = [] then nameStart c else nameChar c) then
      some { r with sample := { r.sample with name := r.sample.name ++ [c] } }
    else if r.sample.name = [] then none
    else if c = '{' then some { r with phase := .label [] }
    else if c = ' ' then some { r with phase := .value }
    else none
  | .label read =>
    if (if read = [] then labelStart c else labelChar c) then
      some { r with phase := .label (read ++ [c]) }
    else if c = '=' ∧ read ≠ [] then some { r with phase := .opening read }
    else if c = '}' ∧ read = [] then some { r with phase := .blank }
    else none
  | .opening label => if c = '"' then some { r with phase := .quoted label [] } else none
  | .quoted label read =>
    if c = '"' then
      some ⟨{ r.sample with labels := r.sample.labels ++ [(label, read)] }, .closed⟩
    else if c = '\\' then some { r with phase := .escaped label read }
    else some { r with phase := .quoted label (read ++ [c]) }
  | .escaped label read =>
    if c = 'n' then some { r with phase := .quoted label (read ++ ['\n']) }
    else if c = '"' ∨ c = '\\' then some { r with phase := .quoted label (read ++ [c]) }
    else none
  | .closed =>
    if c = ',' then some { r with phase := .label [] }
    else if c = '}' then some { r with phase := .blank }
    else none
  | .blank => if c = ' ' then some { r with phase := .value } else none
  | .value =>
    if c = ' ' then none
    else some { r with sample := { r.sample with value := r.sample.value ++ [c] } }

def Reader.finish (r : Reader) : Option Sample :=
  if r.phase = .value ∧ r.sample.value ≠ [] then some r.sample else none

def readSample (line : List Char) : Option Sample :=
  (line.foldlM Reader.step Reader.start).bind Reader.finish

/-- The lines of a text, and what comes after the last of them. -/
def splitLines : List Char → List (List Char) × List Char
  | [] => ([], [])
  | c :: text =>
    if c = '\n' then ([] :: (splitLines text).1, (splitLines text).2)
    else
      match splitLines text with
      | ([], rest) => ([], c :: rest)
      | (line :: lines, rest) => ((c :: line) :: lines, rest)

def isComment (line : List Char) : Bool := line.isEmpty || line.head? == some '#'

/-- The samples of a page.  Its last line has to end too. -/
def read (page : List Char) : Option (List Sample) :=
  if (splitLines page).2 = [] then
    ((splitLines page).1.filter fun line => !isComment line).mapM readSample
  else none

section Line

variable {s : Sample} {r : Reader}

theorem foldlM_append' {l l' : List Char} {r r' : Reader}
    (h : l.foldlM Reader.step r = some r') :
    (l ++ l').foldlM Reader.step r = l'.foldlM Reader.step r' := by
  rw [List.foldlM_append, h]
  rfl

theorem read_name {word read : List Char} {labels : List (List Char × List Char)}
    {value : List Char} (hread : read ≠ []) (hword : word.all nameChar = true) :
    word.foldlM Reader.step ⟨⟨read, labels, value⟩, .name⟩ =
      some ⟨⟨read ++ word, labels, value⟩, .name⟩ := by
  induction word generalizing read with
  | nil => simp
  | cons c cs ih =>
    rw [List.all_cons, Bool.and_eq_true] at hword
    have hstep : Reader.step ⟨⟨read, labels, value⟩, .name⟩ c =
        some ⟨⟨read ++ [c], labels, value⟩, .name⟩ := by
      simp only [Reader.step, if_neg hread, hword.1, if_true]
    rw [List.foldlM_cons, hstep]
    show cs.foldlM Reader.step _ = _
    rw [ih (by simp) hword.2, List.append_assoc]
    rfl

theorem read_word {word : List Char} {labels : List (List Char × List Char)} {value : List Char}
    (h : isWord nameStart nameChar word = true) :
    word.foldlM Reader.step ⟨⟨[], labels, value⟩, .name⟩ =
      some ⟨⟨word, labels, value⟩, .name⟩ := by
  cases word with
  | nil => cases h
  | cons c cs =>
    obtain ⟨hc, hcs⟩ := Bool.and_eq_true_iff.mp h
    have hstep : Reader.step ⟨⟨[], labels, value⟩, .name⟩ c =
        some ⟨⟨[c], labels, value⟩, .name⟩ := by
      simp only [Reader.step, if_true, hc, List.nil_append]
    rw [List.foldlM_cons, hstep]
    exact read_name (by simp) hcs

theorem read_label_rest {word read : List Char} (hread : read ≠ [])
    (hword : word.all labelChar = true) :
    word.foldlM Reader.step ⟨s, .label read⟩ = some ⟨s, .label (read ++ word)⟩ := by
  induction word generalizing read with
  | nil => simp
  | cons c cs ih =>
    rw [List.all_cons, Bool.and_eq_true] at hword
    have hstep : Reader.step ⟨s, .label read⟩ c = some ⟨s, .label (read ++ [c])⟩ := by
      simp only [Reader.step, if_neg hread, hword.1, if_true]
    rw [List.foldlM_cons, hstep]
    show cs.foldlM Reader.step _ = _
    rw [ih (by simp) hword.2, List.append_assoc]
    rfl

theorem read_label {word : List Char} (h : isWord labelStart labelChar word = true) :
    word.foldlM Reader.step ⟨s, .label []⟩ = some ⟨s, .label word⟩ := by
  cases word with
  | nil => cases h
  | cons c cs =>
    obtain ⟨hc, hcs⟩ := Bool.and_eq_true_iff.mp h
    have hstep : Reader.step ⟨s, .label []⟩ c = some ⟨s, .label [c]⟩ := by
      simp only [Reader.step, if_true, hc, List.nil_append]
    rw [List.foldlM_cons, hstep]
    exact read_label_rest (by simp) hcs

theorem read_quoted (label value read : List Char) :
    (escape value).foldlM Reader.step ⟨s, .quoted label read⟩ =
      some ⟨s, .quoted label (read ++ value)⟩ := by
  induction value generalizing read with
  | nil => simp [escape]
  | cons c cs ih =>
    have hfirst : (escape [c]).foldlM Reader.step ⟨s, .quoted label read⟩ =
        some ⟨s, .quoted label (read ++ [c])⟩ := by
      by_cases hback : c = '\\'
      · subst hback
        rfl
      · by_cases hquote : c = '"'
        · subst hquote
          rfl
        · by_cases hline : c = '\n'
          · subst hline
            rfl
          · simp [escape, Reader.step, hback, hquote, hline]
    have hcons : escape (c :: cs) = escape [c] ++ escape cs := by
      simp [escape]
    rw [hcons, foldlM_append' hfirst, ih, List.append_assoc]
    rfl

theorem read_pair {pair : List Char × List Char} {labels : List (List Char × List Char)}
    {name value : List Char} (h : isWord labelStart labelChar pair.1 = true) :
    (pairText pair).foldlM Reader.step ⟨⟨name, labels, value⟩, .label []⟩ =
      some ⟨⟨name, labels ++ [pair], value⟩, .closed⟩ := by
  have hne : pair.1 ≠ [] := by
    intro hnil
    rw [hnil] at h
    cases h
  have hopen : ['=', '"'].foldlM Reader.step ⟨⟨name, labels, value⟩, .label pair.1⟩ =
      some ⟨⟨name, labels, value⟩, .quoted pair.1 []⟩ := by
    have heq : labelChar '=' = false := by decide
    simp [Reader.step, hne, heq]
  unfold pairText
  rw [List.append_assoc, List.append_assoc, foldlM_append' (read_label h), foldlM_append' hopen,
    foldlM_append' (read_quoted pair.1 pair.2 [])]
  rfl

theorem read_pairs {name value : List Char} {pairs : List (List Char × List Char)}
    (hne : pairs ≠ []) (labels : List (List Char × List Char))
    (h : ∀ pair ∈ pairs, isWord labelStart labelChar pair.1 = true) :
    (pairsText pairs).foldlM Reader.step ⟨⟨name, labels, value⟩, .label []⟩ =
      some ⟨⟨name, labels ++ pairs, value⟩, .closed⟩ := by
  induction pairs generalizing labels with
  | nil => exact absurd rfl hne
  | cons pair rest ih =>
    have hpair := h pair List.mem_cons_self
    cases rest with
    | nil => exact read_pair hpair
    | cons next rest =>
      have hnext := ih (List.cons_ne_nil next rest) (labels ++ [pair])
        fun p hp => h p (List.mem_cons_of_mem _ hp)
      unfold pairsText
      rw [foldlM_append' (read_pair hpair), List.foldlM_cons]
      show (pairsText (next :: rest)).foldlM Reader.step ⟨⟨name, labels ++ [pair], value⟩, .label []⟩ = _
      rw [hnext, List.append_assoc]
      rfl

theorem read_value {name value read : List Char} {labels : List (List Char × List Char)}
    (h : ∀ c ∈ value, c ≠ ' ') :
    value.foldlM Reader.step ⟨⟨name, labels, read⟩, .value⟩ =
      some ⟨⟨name, labels, read ++ value⟩, .value⟩ := by
  induction value generalizing read with
  | nil => simp
  | cons c cs ih =>
    have hstep : Reader.step ⟨⟨name, labels, read⟩, .value⟩ c =
        some ⟨⟨name, labels, read ++ [c]⟩, .value⟩ := by
      simp only [Reader.step, if_neg (h c List.mem_cons_self)]
    rw [List.foldlM_cons, hstep]
    show cs.foldlM Reader.step _ = _
    rw [ih fun d hd => h d (List.mem_cons_of_mem _ hd), List.append_assoc]
    rfl

theorem readSample_text (h : s.WellFormed) : readSample s.text = some s := by
  obtain ⟨name, labels, value⟩ := s
  have hname : name ≠ [] := by
    intro hnil
    have := h.name
    rw [hnil] at this
    cases this
  have hbefore : (name ++ (if labels = [] then [] else '{' :: pairsText labels ++ ['}']) ++ [' ']).foldlM
      Reader.step Reader.start = some ⟨⟨name, labels, []⟩, .value⟩ := by
    rw [List.append_assoc]
    show (name ++ _).foldlM Reader.step ⟨⟨[], [], []⟩, .name⟩ = _
    rw [foldlM_append' (read_word h.name)]
    by_cases hlabels : labels = []
    · have hspace : nameChar ' ' = false := by decide
      simp [hlabels, Reader.step, hname, hspace]
    · have hbrace : nameChar '{' = false := by decide
      rw [if_neg hlabels, List.cons_append, List.cons_append, List.foldlM_cons]
      have hstep : Reader.step ⟨⟨name, [], []⟩, .name⟩ '{' = some ⟨⟨name, [], []⟩, .label []⟩ := by
        simp [Reader.step, hname, hbrace]
      rw [hstep]
      show (pairsText labels ++ ['}'] ++ [' ']).foldlM Reader.step ⟨⟨name, [], []⟩, .label []⟩ = _
      rw [List.append_assoc, foldlM_append' (read_pairs hlabels [] h.labels)]
      rfl
  have hsplit : (⟨name, labels, value⟩ : Sample).text =
      name ++ (if labels = [] then [] else '{' :: pairsText labels ++ ['}']) ++ [' '] ++ value := by
    simp [Sample.text]
  unfold readSample
  rw [hsplit, foldlM_append' hbefore, read_value fun c hc => (h.value.2 c hc).1]
  exact if_pos ⟨rfl, h.value.1⟩

end Line

theorem splitLines_line {line : List Char} (h : '\n' ∉ line) (text : List Char) :
    splitLines (line ++ '\n' :: text) = (line :: (splitLines text).1, (splitLines text).2) := by
  induction line with
  | nil => simp [splitLines]
  | cons c cs ih =>
    rw [List.mem_cons, not_or] at h
    rw [List.cons_append, splitLines, if_neg (Ne.symm h.1), ih h.2]

theorem newline_not_mem_word {start rest : Char → Bool} (hs : start '\n' = false)
    (hr : rest '\n' = false) {word : List Char} (h : isWord start rest word = true) :
    '\n' ∉ word := by
  cases word with
  | nil => cases h
  | cons c cs =>
    obtain ⟨hc, hcs⟩ := Bool.and_eq_true_iff.mp h
    intro hmem
    rcases List.mem_cons.mp hmem with heq | hmem
    · rw [← heq, hs] at hc
      cases hc
    · have := List.all_eq_true.mp hcs _ hmem
      rw [hr] at this
      cases this

theorem newline_not_mem_escape (value : List Char) : '\n' ∉ escape value := by
  unfold escape
  rw [List.mem_flatMap]
  rintro ⟨c, -, hmem⟩
  split at hmem
  · simp at hmem
  · split at hmem
    · simp at hmem
    · split at hmem
      · simp at hmem
      · next hline => exact hline (List.mem_singleton.mp hmem).symm

theorem newline_not_mem_pairs {pairs : List (List Char × List Char)}
    (h : ∀ pair ∈ pairs, isWord labelStart labelChar pair.1 = true) : '\n' ∉ pairsText pairs := by
  have hpair : ∀ pair ∈ pairs, '\n' ∉ pairText pair := by
    intro pair hmem
    have hlabel := newline_not_mem_word (by decide) (by decide) (h pair hmem)
    have hvalue := newline_not_mem_escape pair.2
    simp [pairText, hlabel, hvalue]
  induction pairs with
  | nil => simp [pairsText]
  | cons pair rest ih =>
    have hfirst := hpair pair List.mem_cons_self
    cases rest with
    | nil => exact hfirst
    | cons next rest =>
      have hrest := ih (fun p hp => h p (List.mem_cons_of_mem _ hp))
        fun p hp => hpair p (List.mem_cons_of_mem _ hp)
      simp [pairsText, hfirst, hrest]

def Plain (value : List Char) : Prop := ∀ c ∈ value, c ≠ '\\' ∧ c ≠ '"' ∧ c ≠ '\n'

theorem escape_plain {value : List Char} (h : Plain value) : escape value = value := by
  unfold escape
  induction value with
  | nil => rfl
  | cons c cs ih =>
    obtain ⟨hback, hquote, hline⟩ := h c List.mem_cons_self
    rw [List.flatMap_cons, ih fun d hd => h d (List.mem_cons_of_mem _ hd), if_neg hback,
      if_neg hquote, if_neg hline]
    rfl

theorem Sample.WellFormed.newline {s : Sample} (h : s.WellFormed) : '\n' ∉ s.text := by
  have hname := newline_not_mem_word (by decide) (by decide) h.name
  have hlabels := newline_not_mem_pairs h.labels
  have hvalue : '\n' ∉ s.value := fun hmem => (h.value.2 _ hmem).2 rfl
  unfold Sample.text
  split <;> simp [hname, hlabels, hvalue]

theorem Sample.WellFormed.not_comment {s : Sample} (h : s.WellFormed) :
    isComment s.text = false := by
  obtain ⟨name, labels, value⟩ := s
  cases name with
  | nil => cases h.name
  | cons c cs =>
    obtain ⟨hc, -⟩ := Bool.and_eq_true_iff.mp h.name
    have hne : c ≠ '#' := by
      intro he
      rw [he] at hc
      exact absurd hc (by decide)
    simp [isComment, Sample.text, hne]

theorem splitLines_pageText {entries : List Entry} (h : ∀ e ∈ entries, e.WellFormed) :
    splitLines (pageText entries) = (entries.map Entry.text, []) := by
  induction entries with
  | nil => rfl
  | cons e rest ih =>
    have hline : '\n' ∉ e.text := by
      have he := h e List.mem_cons_self
      cases e with
      | comment text =>
        intro hmem
        rcases List.mem_cons.mp hmem with heq | hmem
        · exact absurd heq (by decide)
        · exact he hmem
      | sample s => exact Sample.WellFormed.newline he
    have htext : pageText (e :: rest) = e.text ++ '\n' :: pageText rest := by
      simp [pageText]
    rw [htext, splitLines_line hline, ih fun e' he' => h e' (List.mem_cons_of_mem _ he')]
    rfl

/-- A page that is written of well-formed lines is read as its samples. -/
theorem read_pageText {entries : List Entry} (h : ∀ e ∈ entries, e.WellFormed) :
    read (pageText entries) = some (entries.filterMap Entry.sample?) := by
  unfold read
  rw [splitLines_pageText h, if_pos rfl]
  induction entries with
  | nil => rfl
  | cons e rest ih =>
    have hrest := ih fun e' he' => h e' (List.mem_cons_of_mem _ he')
    have he := h e List.mem_cons_self
    cases e with
    | comment text => exact hrest
    | sample s =>
      simp only [List.map_cons, Entry.text, List.filter_cons, Sample.WellFormed.not_comment he,
        Bool.not_false, if_true, List.mapM_cons, readSample_text he, List.filterMap_cons,
        Entry.sample?]
      rw [hrest]
      rfl

/-- The values of the samples with this name and these labels. -/
def series (samples : List Sample) (name : List Char) (labels : List (List Char × List Char)) :
    List (List Char) :=
  samples.filterMap fun s => if s.name = name ∧ s.labels = labels then some s.value else none

section Series

variable {samples samples' : List Sample} {name : List Char} {labels : List (List Char × List Char)}

theorem series_append : series (samples ++ samples') name labels =
    series samples name labels ++ series samples' name labels :=
  List.filterMap_append

theorem series_cons_pos {s : Sample} (hname : s.name = name) (hlabels : s.labels = labels) :
    series (s :: samples) name labels = s.value :: series samples name labels := by
  unfold series
  rw [List.filterMap_cons, if_pos ⟨hname, hlabels⟩]

theorem series_cons_neg {s : Sample} (h : s.name = name → s.labels ≠ labels) :
    series (s :: samples) name labels = series samples name labels := by
  unfold series
  rw [List.filterMap_cons, if_neg fun he => h he.1 he.2]

theorem series_eq_nil (h : ∀ s ∈ samples, s.name = name → s.labels ≠ labels) :
    series samples name labels = [] := by
  refine List.filterMap_eq_nil_iff.mpr fun s hs => if_neg ?_
  rintro ⟨hname, hlabels⟩
  exact h s hs hname hlabels

theorem series_other (h : ∀ s ∈ samples, s.name ≠ name) : series samples name labels = [] :=
  series_eq_nil fun s hs hname => absurd hname (h s hs)

end Series

end Exposition
