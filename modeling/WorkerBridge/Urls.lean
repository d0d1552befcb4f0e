import WorkerBridge.Text
import Mathlib

namespace Urls

/-- The text before the first `c`, and what comes after it if there is one. -/
def cut (c : Char) (t : Text) : Text × Option Text :=
  (t.takeWhile fun d => decide (d ≠ c),
    match t.dropWhile fun d => decide (d ≠ c) with
    | [] => none
    | _ :: rest => some rest)

/-- The part after a cut, with the character it was cut at. -/
def after (c : Char) : Option Text → Text
  | none => []
  | some rest => c :: rest

theorem takeWhile_append_stop {p : Char → Bool} {a b : Text} (ha : ∀ x ∈ a, p x = true)
    (hb : ∀ x ∈ b.head?, p x = false) : (a ++ b).takeWhile p = a ∧ (a ++ b).dropWhile p = b := by
  rw [List.takeWhile_append_of_pos ha, List.dropWhile_append_of_pos ha]
  cases b with
  | nil => simp
  | cons x b =>
    have hx := hb x rfl
    simp [hx]

theorem cut_append {c : Char} {a : Text} (h : c ∉ a) (o : Option Text) :
    cut c (a ++ after c o) = (a, o) := by
  have hstop : ∀ x ∈ (after c o).head?, decide (x ≠ c) = false := by
    cases o with
    | none => simp [after]
    | some rest => simp [after]
  obtain ⟨htake, hdrop⟩ := takeWhile_append_stop (a := a)
    (p := fun d => decide (d ≠ c)) (fun x hx => decide_eq_true (ne_of_mem_of_not_mem hx h)) hstop
  unfold cut
  rw [htake, hdrop]
  cases o <;> rfl

theorem cut_self (c : Char) (t : Text) : cut c (c :: t) = ([], some t) := by
  simp [cut]

theorem cut_cons {c d : Char} (h : d ≠ c) (t : Text) :
    cut c (d :: t) = (d :: (cut c t).1, (cut c t).2) := by
  simp [cut, h]

theorem cut_spec (c : Char) (t : Text) :
    (cut c t).1 ++ after c (cut c t).2 = t ∧ c ∉ (cut c t).1 := by
  induction t with
  | nil => exact ⟨rfl, List.not_mem_nil⟩
  | cons d t ih =>
    by_cases hd : d = c
    · subst hd
      rw [cut_self]
      exact ⟨rfl, List.not_mem_nil⟩
    · rw [cut_cons hd]
      refine ⟨congrArg (d :: ·) ih.1, fun hmem => ?_⟩
      rcases List.mem_cons.mp hmem with he | hmem
      · exact hd he.symm
      · exact ih.2 hmem

/-- A character of `_WHATWG_C0_CONTROL_OR_SPACE`. -/
def isControlOrSpace (c : Char) : Bool := decide (c.toNat ≤ 32)

def isTabOrNewline (c : Char) : Bool := c = '\t' || c = '\r' || c = '\n'

def isSchemeChar (c : Char) : Bool := c.isAlphanum || c = '+' || c = '-' || c = '.'

theorem isControlOrSpace_of_tab {c : Char} (h : isTabOrNewline c = true) :
    isControlOrSpace c = true := by
  simp only [isTabOrNewline, Bool.or_eq_true, decide_eq_true_eq] at h
  rcases h with (rfl | rfl) | rfl <;> decide

def isDelimiter (c : Char) : Bool := c = '/' || c = '?' || c = '#'

structure SplitResult where
  scheme : Text
  netloc : Text
  path : Text
  query : Text
  fragment : Text
  deriving DecidableEq

/-- What `urlsplit` reads of a text. -/
def prepare (t : Text) : Text :=
  (t.dropWhile isControlOrSpace).filter fun c => !isTabOrNewline c

def splitScheme (url : Text) : Text × Text :=
  match cut ':' url with
  | (scheme, some rest) =>
    if scheme.head?.any Char.isAlpha && scheme.all isSchemeChar then (Text.lower scheme, rest)
    else ([], url)
  | (_, none) => ([], url)

def splitNetloc (url : Text) : Text × Text :=
  match url with
  | '/' :: '/' :: rest =>
    (rest.takeWhile fun c => !isDelimiter c, rest.dropWhile fun c => !isDelimiter c)
  | _ => ([], url)

/-- `urlsplit`.  `checkNetloc` are its checks of brackets and of normal forms, which raise a
`ValueError`. -/
def urlsplit (checkNetloc : Text → Bool) (t : Text) : Option SplitResult :=
  let (scheme, url) := splitScheme (prepare t)
  let (netloc, url) := splitNetloc url
  if checkNetloc netloc then
    let (url, fragment) := cut '#' url
    let (path, query) := cut '?' url
    some ⟨scheme, netloc, path, query.getD [], fragment.getD []⟩
  else none

/-- The schemes of `uses_netloc`. -/
def usesNetloc : List Text :=
  ["ftp", "http", "gopher", "nntp", "telnet", "imap", "wais", "file", "mms", "https", "shttp",
    "snews", "prospero", "rtsp", "rtsps", "rtspu", "rsync", "svn", "svn+ssh", "sftp", "nfs", "git",
    "git+ssh", "ws", "wss", "itms-services"].map String.toList

/-- `prefix + text`, if there is a text. -/
def afterIf (c : Char) (t : Text) : Text := if t = [] then [] else c :: t

/-- The netloc and the path in `urlunsplit`. -/
def joinNetloc (scheme netloc path : Text) : Text :=
  let rooted := path.head? = some '/'
  if netloc ≠ [] then
    '/' :: '/' :: (netloc ++ if path = [] ∨ rooted then path else '/' :: path)
  else if List.isPrefixOf ['/', '/'] path then '/' :: '/' :: path
  else if scheme ∈ usesNetloc ∧ (path = [] ∨ rooted) then '/' :: '/' :: path
  else path

def urlunsplit (parts : SplitResult) : Text :=
  let url := joinNetloc parts.scheme parts.netloc parts.path
  let url := if parts.scheme = [] then url else parts.scheme ++ ':' :: url
  url ++ (afterIf '?' parts.query ++ afterIf '#' parts.fragment)

/-- The text of a URL: a scheme, what comes before the query, the query and the fragment. -/
def spell (scheme body : Text) (query fragment : Option Text) : Text :=
  scheme ++ ':' :: (body ++ (after '?' query ++ after '#' fragment))

def compose (scheme netloc path : Text) (query fragment : Option Text) : Text :=
  spell scheme ('/' :: '/' :: (netloc ++ path)) query fragment

/-- A text that is read back as it is spelled. -/
structure Spelled (scheme body : Text) (query : Option Text) : Prop where
  alpha : scheme.head?.any Char.isAlpha = true
  scheme : scheme.all isSchemeChar = true
  not_query : '?' ∉ body
  not_fragment : '#' ∉ body
  query : ∀ q ∈ query, '#' ∉ q

/-- A path after a netloc is empty or begins with a slash. -/
def IsRooted (path : Text) : Prop := path = [] ∨ path.head? = some '/'

theorem IsRooted.append {path : Text} (h : IsRooted path) (more : Text) :
    IsRooted (path ++ '/' :: more) := by
  rcases h with rfl | hhead
  · exact Or.inr rfl
  · cases path with
    | nil => cases hhead
    | cons c path => exact Or.inr hhead

theorem IsRooted.of_append {path more : Text} (h : IsRooted (path ++ more)) : IsRooted path := by
  cases path with
  | nil => exact Or.inl rfl
  | cons c path =>
    rcases h with hnil | hhead
    · cases hnil
    · exact Or.inr hhead

/-- The parts of a text that is read back as they are. -/
structure Parts (scheme netloc path : Text) (query : Option Text) : Prop
    extends Spelled scheme (netloc ++ path) query where
  netloc : ∀ c ∈ netloc, isDelimiter c = false
  rooted : IsRooted path

variable {scheme body netloc path : Text} {query fragment : Option Text}

theorem toNat_lt_of_isSchemeChar {c : Char} (h : isSchemeChar c = true) : c.toNat < 128 := by
  simp only [isSchemeChar, Char.isAlphanum, Char.isAlpha, Char.isUpper, Char.isLower, Char.isDigit,
    Bool.or_eq_true, Bool.and_eq_true, decide_eq_true_eq, ge_iff_le, UInt32.le_iff_toNat_le] at h
  have hc : c.toNat = c.val.toNat := rfl
  have hZ : 'Z'.val.toNat = 90 := rfl
  have hz : 'z'.val.toNat = 122 := rfl
  have h9 : '9'.val.toNat = 57 := rfl
  rcases h with ((h | rfl) | rfl) | rfl
  · omega
  all_goals decide

theorem isSchemeChar_facts {c : Char} (h : isSchemeChar c = true) :
    isSchemeChar c.toLower = true ∧ isControlOrSpace c = false := by
  have hascii : ∀ n < 128, isSchemeChar (Char.ofNat n) = true →
      isSchemeChar (Char.ofNat n).toLower = true ∧ isControlOrSpace (Char.ofNat n) = false := by
    decide
  have hc := hascii c.toNat (toNat_lt_of_isSchemeChar h)
  rw [Char.ofNat_toNat] at hc
  exact hc h

theorem colon_not_mem (h : scheme.all isSchemeChar = true) : ':' ∉ scheme := fun hmem =>
  absurd (List.all_eq_true.mp h _ hmem) (by decide)

theorem slash_not_mem (h : scheme.all isSchemeChar = true) : '/' ∉ scheme := fun hmem =>
  absurd (List.all_eq_true.mp h _ hmem) (by decide)

theorem Spelled.ne_nil (h : Spelled scheme body query) : scheme ≠ [] := by
  intro hempty
  have halpha := h.alpha
  rw [hempty] at halpha
  cases halpha

theorem Spelled.scheme_kept (h : Spelled scheme body query) :
    ∀ c ∈ scheme, isControlOrSpace c = false := fun c hc =>
  (isSchemeChar_facts (List.all_eq_true.mp h.scheme c hc)).2

theorem Spelled.lower (h : Spelled scheme body query) : Spelled (Text.lower scheme) body query := by
  refine ⟨?_, ?_, h.not_query, h.not_fragment, h.query⟩
  · have halpha := h.alpha
    cases scheme with
    | nil => cases halpha
    | cons c scheme => exact (Char.isAlpha_toLower_eq_isAlpha c).trans halpha
  · rw [Text.lower, List.all_map, List.all_eq_true]
    exact fun c hc => (isSchemeChar_facts (List.all_eq_true.mp h.scheme c hc)).1

theorem lower_lower (scheme : Text) : Text.lower (Text.lower scheme) = Text.lower scheme := by
  unfold Text.lower
  rw [List.map_map]
  exact List.map_congr_left fun c _ => Char.toLower_toLower_eq_toLower c

theorem splitScheme_spell (halpha : scheme.head?.any Char.isAlpha = true)
    (hall : scheme.all isSchemeChar = true) (rest : Text) :
    splitScheme (scheme ++ ':' :: rest) = (Text.lower scheme, rest) := by
  unfold splitScheme
  rw [show scheme ++ ':' :: rest = scheme ++ after ':' (some rest) from rfl,
    cut_append (colon_not_mem hall)]
  simp only [halpha, hall, Bool.and_self, if_true]

theorem splitScheme_cases (url : Text) : splitScheme url = ([], url) ∨
    ∃ scheme rest, url = scheme ++ ':' :: rest ∧ splitScheme url = (Text.lower scheme, rest) ∧
      scheme.head?.any Char.isAlpha = true ∧ scheme.all isSchemeChar = true := by
  obtain ⟨hurl, -⟩ := cut_spec ':' url
  unfold splitScheme
  split
  · next scheme rest hcut =>
    rw [hcut] at hurl
    split
    · next hchars =>
      rw [Bool.and_eq_true] at hchars
      exact Or.inr ⟨scheme, rest, hurl.symm, rfl, hchars.1, hchars.2⟩
    · exact Or.inl rfl
  · exact Or.inl rfl

theorem splitNetloc_compose (h : Parts scheme netloc path query) :
    splitNetloc ('/' :: '/' :: (netloc ++ (path ++ (after '?' query ++ after '#' fragment)))) =
      (netloc, path ++ (after '?' query ++ after '#' fragment)) := by
  have hstop : ∀ c ∈ (path ++ (after '?' query ++ after '#' fragment)).head?,
      (!isDelimiter c) = false := by
    rcases h.rooted with hempty | hroot
    · subst hempty
      cases query <;> cases fragment <;> simp [after, isDelimiter]
    · cases path with
      | nil => cases hroot
      | cons d path =>
        obtain rfl : d = '/' := Option.some.inj hroot
        simp [isDelimiter]
  obtain ⟨htake, hdrop⟩ := takeWhile_append_stop (p := fun c => !isDelimiter c)
    (fun c hc => by rw [h.netloc c hc]; rfl) hstop
  unfold splitNetloc
  simp only [htake, hdrop]

theorem cut_marks (fragment : Option Text) (hquery : '?' ∉ path) (hfragment : '#' ∉ path)
    (hq : ∀ q ∈ query, '#' ∉ q) :
    cut '#' (path ++ (after '?' query ++ after '#' fragment)) = (path ++ after '?' query, fragment) ∧
      cut '?' (path ++ after '?' query) = (path, query) := by
  refine ⟨?_, cut_append hquery query⟩
  rw [← List.append_assoc]
  refine cut_append ?_ fragment
  rw [List.mem_append, not_or]
  refine ⟨hfragment, ?_⟩
  cases query with
  | none => exact List.not_mem_nil
  | some q => simpa [after] using hq q rfl

theorem urlsplit_compose {checkNetloc : Text → Bool} {t : Text}
    (ht : prepare t = compose scheme netloc path query fragment)
    (h : Parts scheme netloc path query) (hcheck : checkNetloc netloc = true) :
    urlsplit checkNetloc t =
      some ⟨Text.lower scheme, netloc, path, query.getD [], fragment.getD []⟩ := by
  obtain ⟨hfragment, hquery⟩ := cut_marks fragment
    (fun hmem => h.not_query (List.mem_append_right _ hmem))
    (fun hmem => h.not_fragment (List.mem_append_right _ hmem)) h.query
  unfold compose spell at ht
  rw [List.cons_append, List.cons_append, List.append_assoc] at ht
  unfold urlsplit
  rw [ht, splitScheme_spell h.alpha h.scheme]
  simp only
  rw [splitNetloc_compose h]
  simp only [hcheck, if_true]
  rw [hfragment]
  simp only
  rw [hquery]

theorem cut_marks_spec (rest : Text) : ∃ path query fragment,
    rest = path ++ (after '?' query ++ after '#' fragment) ∧
      '?' ∉ path ∧ '#' ∉ path ∧ ∀ q ∈ query, '#' ∉ q := by
  obtain ⟨hrest, hfragment⟩ := cut_spec '#' rest
  obtain ⟨hbefore, hquery⟩ := cut_spec '?' (cut '#' rest).1
  rw [← hbefore, List.mem_append, not_or] at hfragment
  refine ⟨(cut '?' (cut '#' rest).1).1, (cut '?' (cut '#' rest).1).2, (cut '#' rest).2, ?_,
    hquery, hfragment.1, fun q hq hmem => hfragment.2 ?_⟩
  · rw [← List.append_assoc, hbefore, hrest]
  · rw [show (cut '?' (cut '#' rest).1).2 = some q from hq]
    exact List.mem_cons_of_mem _ hmem

theorem splitNetloc_cases (url : Text) : splitNetloc url = ([], url) ∨
    ∃ netloc rest, url = '/' :: '/' :: (netloc ++ rest) ∧ splitNetloc url = (netloc, rest) ∧
      (∀ c ∈ netloc, isDelimiter c = false) ∧ ∀ c ∈ rest.head?, isDelimiter c = true := by
  unfold splitNetloc
  split
  · next rest =>
    refine Or.inr ⟨_, _, ?_, rfl, ?_, ?_⟩
    · rw [List.takeWhile_append_dropWhile]
    · intro c hc
      simpa using List.mem_takeWhile_imp hc
    · intro c hc
      have hnot := List.head?_dropWhile_not (fun c => !isDelimiter c) rest
      rw [hc] at hnot
      simpa using hnot
  · exact Or.inl rfl

theorem netloc_of_split (url : Text) : ∃ slashes netloc path query fragment,
    splitNetloc url = (netloc, path ++ (after '?' query ++ after '#' fragment)) ∧
      url = slashes ++ (netloc ++ (path ++ (after '?' query ++ after '#' fragment))) ∧
      '?' ∉ netloc ++ path ∧ '#' ∉ netloc ++ path ∧ (∀ q ∈ query, '#' ∉ q) ∧
      (slashes = [] ∧ netloc = [] ∨ slashes = ['/', '/'] ∧ IsRooted path) := by
  rcases splitNetloc_cases url with heq | ⟨netloc, rest, hurl, heq, hchars, hstop⟩
  · obtain ⟨path, query, fragment, hrest, hquery, hfragment, hq⟩ := cut_marks_spec url
    refine ⟨[], [], path, query, fragment, ?_, hrest, hquery, hfragment, hq, Or.inl ⟨rfl, rfl⟩⟩
    rw [heq, ← hrest]
  · obtain ⟨path, query, fragment, hrest, hquery, hfragment, hq⟩ := cut_marks_spec rest
    have hnot : ∀ c, isDelimiter c = true → c ∉ netloc := fun c hc hmem => by
      rw [hchars c hmem] at hc
      cases hc
    refine ⟨['/', '/'], netloc, path, query, fragment, ?_, ?_, ?_, ?_, hq, Or.inr ⟨rfl, ?_⟩⟩
    · rw [heq, ← hrest]
    · rw [hurl, ← hrest]
      rfl
    · simpa using ⟨hnot '?' rfl, hquery⟩
    · simpa using ⟨hnot '#' rfl, hfragment⟩
    · cases path with
      | nil => exact Or.inl rfl
      | cons c path =>
        have hc := hstop c (by rw [hrest]; rfl)
        refine Or.inr (congrArg some ?_)
        simp only [isDelimiter, Bool.or_eq_true, decide_eq_true_eq] at hc
        rcases hc with (hc | hc) | hc
        · exact hc
        · exact absurd (hc ▸ List.mem_cons_self) hquery
        · exact absurd (hc ▸ List.mem_cons_self) hfragment

theorem text_of_urlsplit {checkNetloc : Text → Bool} {t : Text} {parts : SplitResult}
    (h : urlsplit checkNetloc t = some parts) : ∃ slashes query fragment,
      (splitScheme (prepare t)).2 =
        slashes ++ (parts.netloc ++ (parts.path ++ (after '?' query ++ after '#' fragment))) ∧
      parts.scheme = (splitScheme (prepare t)).1 ∧ parts.query = query.getD [] ∧
      parts.fragment = fragment.getD [] ∧
      '?' ∉ parts.netloc ++ parts.path ∧ '#' ∉ parts.netloc ++ parts.path ∧ (∀ q ∈ query, '#' ∉ q) ∧
      (slashes = [] ∧ parts.netloc = [] ∨ slashes = ['/', '/'] ∧ IsRooted parts.path) := by
  obtain ⟨slashes, netloc, path, query, fragment, heq, hurl, hquery, hfragment, hq, hslashes⟩ :=
    netloc_of_split (splitScheme (prepare t)).2
  obtain ⟨hcut, hcut'⟩ := cut_marks fragment
    (fun hmem => hquery (List.mem_append_right _ hmem))
    (fun hmem => hfragment (List.mem_append_right _ hmem)) hq
  unfold urlsplit at h
  simp only [heq, hcut, hcut'] at h
  split at h
  · cases h
    exact ⟨slashes, query, fragment, hurl, rfl, rfl, rfl, hquery, hfragment, hq, hslashes⟩
  · cases h

structure IsSpelling (t : Text) (parts : SplitResult) (scheme slashes : Text)
    (query fragment : Option Text) : Prop where
  text : prepare t = spell scheme (slashes ++ (parts.netloc ++ parts.path)) query fragment
  spelled : Spelled scheme (slashes ++ (parts.netloc ++ parts.path)) query
  slashes : ∀ c ∈ slashes, c = '/'
  rooted : parts.netloc ≠ [] → IsRooted parts.path
  scheme : parts.scheme = Text.lower scheme
  query : parts.query = query.getD []
  fragment : parts.fragment = fragment.getD []

theorem spelling_of_urlsplit {checkNetloc : Text → Bool} {t : Text} {parts : SplitResult}
    (h : urlsplit checkNetloc t = some parts) (hscheme : parts.scheme ≠ []) :
    ∃ scheme slashes query fragment, IsSpelling t parts scheme slashes query fragment := by
  obtain ⟨slashes, query, fragment, hurl, hparts, hq, hf, hquery, hfragment, hno, hslashes⟩ :=
    text_of_urlsplit h
  rcases splitScheme_cases (prepare t) with hs | ⟨scheme, rest, ht, hs, halpha, hall⟩
  · rw [hs] at hparts
    exact absurd hparts hscheme
  · rw [hs] at hurl hparts
    have hmarks : ∀ mark : Char, mark ≠ '/' → mark ∉ parts.netloc ++ parts.path →
        mark ∉ slashes ++ (parts.netloc ++ parts.path) := by
      intro mark hmark hnot hmem
      rcases List.mem_append.mp hmem with hmem | hmem
      · rcases hslashes with ⟨hempty, -⟩ | ⟨htwo, -⟩
        · rw [hempty] at hmem
          cases hmem
        · rw [htwo] at hmem
          simp [hmark] at hmem
      · exact hnot hmem
    refine ⟨scheme, slashes, query, fragment, ?_, ⟨halpha, hall, hmarks '?' (by decide) hquery,
      hmarks '#' (by decide) hfragment, hno⟩, ?_, ?_, hparts, hq, hf⟩
    · rw [ht, show rest = _ from hurl]
      simp [spell]
    · rcases hslashes with ⟨rfl, -⟩ | ⟨rfl, -⟩ <;> exact Text.forall_mem_of_all rfl
    · intro hne
      rcases hslashes with ⟨-, hempty⟩ | ⟨-, hrooted⟩
      · exact absurd hempty hne
      · exact hrooted

/-- A query or a fragment that is put back is not empty. -/
def unlessEmpty (t : Text) : Option Text := if t = [] then none else some t

@[simp] theorem unlessEmpty_getD (t : Text) : (unlessEmpty t).getD [] = t := by
  unfold unlessEmpty
  split
  · next h => exact h.symm
  · rfl

theorem mem_unlessEmpty {o : Option Text} {s : Text} (h : s ∈ unlessEmpty (o.getD [])) : s ∈ o := by
  unfold unlessEmpty at h
  split at h
  · cases h
  · next hne =>
    cases o with
    | none => exact absurd rfl hne
    | some s' => exact h

theorem mem_after_of_put {c mark : Char} {o : Option Text}
    (h : c ∈ after mark (unlessEmpty (o.getD []))) : c ∈ after mark o := by
  cases hput : unlessEmpty (o.getD []) with
  | none =>
    rw [hput] at h
    cases h
  | some s =>
    rw [mem_unlessEmpty (o := o) (s := s) hput, ← hput]
    exact h

theorem mem_spell {c : Char} : c ∈ spell scheme body query fragment ↔
    c ∈ scheme ∨ c = ':' ∨ c ∈ body ∨ c ∈ after '?' query ∨ c ∈ after '#' fragment := by
  unfold spell
  simp only [List.mem_append, List.mem_cons]

theorem afterIf_eq (c : Char) (t : Text) : afterIf c t = after c (unlessEmpty t) := by
  unfold afterIf unlessEmpty
  split <;> rfl

theorem joinNetloc_eq (scheme : Text) (hpath : netloc ≠ [] → IsRooted path) :
    ∃ slashes, (∀ c ∈ slashes, c = '/') ∧ (netloc ≠ [] → slashes = ['/', '/']) ∧
      joinNetloc scheme netloc path = slashes ++ (netloc ++ path) := by
  have htwo : ∀ c ∈ ['/', '/'], c = '/' := Text.forall_mem_of_all rfl
  unfold joinNetloc
  simp only
  by_cases hnetloc : netloc = []
  · subst hnetloc
    rw [if_neg (not_not_intro rfl)]
    split
    · exact ⟨['/', '/'], htwo, fun h => absurd rfl h, rfl⟩
    · split
      · exact ⟨['/', '/'], htwo, fun h => absurd rfl h, rfl⟩
      · exact ⟨[], fun c hc => absurd hc List.not_mem_nil, fun h => absurd rfl h, rfl⟩
  · have hrooted : path = [] ∨ path.head? = some '/' := hpath hnetloc
    rw [if_pos hnetloc, if_pos hrooted]
    exact ⟨['/', '/'], htwo, fun _ => rfl, rfl⟩

theorem urlunsplit_of_scheme (parts : SplitResult) (h : parts.scheme ≠ []) :
    urlunsplit parts = spell parts.scheme (joinNetloc parts.scheme parts.netloc parts.path)
      (unlessEmpty parts.query) (unlessEmpty parts.fragment) := by
  unfold urlunsplit spell
  simp only [if_neg h, afterIf_eq, List.append_assoc, List.cons_append]

theorem mem_prepare {c : Char} {t : Text} (h : c ∈ prepare t) :
    c ∈ t ∧ isTabOrNewline c = false := by
  obtain ⟨hmem, htab⟩ := List.mem_filter.mp h
  exact ⟨(List.dropWhile_sublist _).subset hmem, by simpa using htab⟩

theorem prepare_head (t : Text) : ∀ c ∈ (prepare t).head?, isControlOrSpace c = false := by
  intro c hc
  unfold prepare at hc
  have hnot := List.head?_dropWhile_not isControlOrSpace t
  cases hdrop : t.dropWhile isControlOrSpace with
  | nil =>
    rw [hdrop] at hc
    cases hc
  | cons d rest =>
    rw [hdrop] at hc hnot
    have hd : isControlOrSpace d = false := by simpa using hnot
    have htab : (!isTabOrNewline d) = true := by
      rw [Bool.not_eq_true']
      refine Bool.eq_false_iff.mpr fun htab => ?_
      rw [isControlOrSpace_of_tab htab] at hd
      cases hd
    rw [show (d :: rest).filter (fun c => !isTabOrNewline c) = _ from
      List.filter_cons_of_pos htab] at hc
    obtain rfl : d = c := Option.some.inj hc
    exact hd

theorem prepare_append {front : Text} (hne : front ≠ [])
    (hhead : ∀ c ∈ front.head?, isControlOrSpace c = false)
    (htab : ∀ c ∈ front, isTabOrNewline c = false) (rest : Text) :
    prepare (front ++ rest) = front ++ rest.filter fun c => !isTabOrNewline c := by
  have hfilter : front.filter (fun c => !isTabOrNewline c) = front :=
    List.filter_eq_self.mpr fun c hc => by simp [htab c hc]
  unfold prepare
  cases front with
  | nil => exact absurd rfl hne
  | cons c front =>
    have hc : ¬ isControlOrSpace c = true := by simp [hhead c rfl]
    rw [List.cons_append, List.dropWhile_cons_of_neg hc, ← List.cons_append, List.filter_append,
      hfilter]

theorem prepare_slash {rest tail : Text} (h : prepare ('/' :: rest) = scheme ++ ':' :: tail) :
    scheme.head?.any Char.isAlpha = false := by
  have hkept := prepare_append (List.cons_ne_nil '/' [])
    (fun c hc => by rw [← Option.some.inj hc]; rfl) (Text.forall_mem_of_all rfl) rest
  rw [show prepare (['/'] ++ rest) = scheme ++ ':' :: tail from h] at hkept
  cases scheme with
  | nil => rfl
  | cons c scheme =>
    obtain rfl : c = '/' := (List.cons.inj hkept).1
    rfl

theorem prepare_eq {t : Text} (hhead : ∀ c ∈ t.head?, isControlOrSpace c = false)
    (htab : ∀ c ∈ t, isTabOrNewline c = false) : prepare t = t := by
  by_cases ht : t = []
  · rw [ht]
    rfl
  · simpa using prepare_append ht hhead htab []

theorem Spelled.prepare_eq (h : Spelled scheme body query) (htab : ∀ c, isTabOrNewline c = true →
    c ∉ body ∧ c ∉ after '?' query ∧ c ∉ after '#' fragment) :
    prepare (spell scheme body query fragment) = spell scheme body query fragment := by
  refine Urls.prepare_eq ?_ ?_
  · intro c hc
    rw [spell, List.head?_append_of_ne_nil _ h.ne_nil] at hc
    exact h.scheme_kept c (List.mem_of_mem_head? hc)
  · intro c hc
    refine Bool.eq_false_iff.mpr fun hc' => ?_
    obtain ⟨hbody, hquery, hfragment⟩ := htab c hc'
    have hkept : isControlOrSpace c = true := isControlOrSpace_of_tab hc'
    rcases mem_spell.mp hc with hmem | rfl | hmem | hmem | hmem
    · rw [h.scheme_kept c hmem] at hkept
      cases hkept
    · cases hkept
    · exact hbody hmem
    · exact hquery hmem
    · exact hfragment hmem

/-- The parts of a text, with another path, are put together to a text that is read back. -/
theorem IsSpelling.put_together {t : Text} {parts : SplitResult} {slashes : Text}
    (h : IsSpelling t parts scheme slashes query fragment) (path : Text)
    (hrooted : parts.netloc ≠ [] → IsRooted path)
    (hpath : ∀ c ∈ path, c ∈ parts.path ∨ isTabOrNewline c = false ∧ c ≠ '?' ∧ c ≠ '#') :
    ∃ slashes', IsSpelling (urlunsplit { parts with path := path })
      { parts with path := path } parts.scheme slashes' (unlessEmpty parts.query)
      (unlessEmpty parts.fragment) := by
  obtain ⟨slashes', hslashes', -, hjoin⟩ := joinNetloc_eq parts.scheme hrooted
  have hlower := h.spelled.lower
  rw [← h.scheme] at hlower
  have hbody : ∀ mark, isTabOrNewline mark = true ∨ mark = '?' ∨ mark = '#' →
      mark ∉ slashes ++ (parts.netloc ++ parts.path) → mark ∉ slashes' ++ (parts.netloc ++ path) := by
    intro mark hmark hnot hmem
    simp only [List.mem_append, not_or] at hmem hnot
    rcases hmem with hmem | hmem | hmem
    · rw [hslashes' mark hmem] at hmark
      revert hmark
      decide
    · exact hnot.2.1 hmem
    · rcases hpath mark hmem with hold | ⟨htab, hquery, hfragment⟩
      · exact hnot.2.2 hold
      · rw [htab] at hmark
        simp [hquery, hfragment] at hmark
  have hquery : ∀ q ∈ unlessEmpty parts.query, '#' ∉ q := by
    rw [h.query]
    exact fun q hq => h.spelled.query q (mem_unlessEmpty hq)
  have htext : urlunsplit { parts with path := path } = spell parts.scheme
      (slashes' ++ (parts.netloc ++ path)) (unlessEmpty parts.query) (unlessEmpty parts.fragment) := by
    have hput := urlunsplit_of_scheme { parts with path := path } hlower.ne_nil
    exact hput.trans (congrArg (fun body => spell parts.scheme body (unlessEmpty parts.query)
      (unlessEmpty parts.fragment)) hjoin)
  have hspelled : Spelled parts.scheme (slashes' ++ (parts.netloc ++ path))
      (unlessEmpty parts.query) :=
    ⟨hlower.alpha, hlower.scheme, hbody '?' (by decide) hlower.not_query,
      hbody '#' (by decide) hlower.not_fragment, hquery⟩
  refine ⟨slashes', ?_, hspelled, hslashes', hrooted, ?_, ?_, ?_⟩
  · rw [htext]
    refine hspelled.prepare_eq fun c htab => ?_
    have hnot : c ∉ prepare t := fun hmem => by
      rw [(mem_prepare hmem).2] at htab
      cases htab
    rw [h.text, mem_spell, not_or, not_or, not_or, not_or] at hnot
    exact ⟨hbody c (Or.inl htab) hnot.2.2.1,
      fun hmem => hnot.2.2.2.1 (mem_after_of_put (h.query ▸ hmem)),
      fun hmem => hnot.2.2.2.2 (mem_after_of_put (h.fragment ▸ hmem))⟩
  · rw [h.scheme, lower_lower]
  · rw [unlessEmpty_getD]
  · rw [unlessEmpty_getD]

end Urls
