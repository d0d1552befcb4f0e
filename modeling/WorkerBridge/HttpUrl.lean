import WorkerBridge.Urls

namespace Urls

structure Url where
  scheme : Text
  authority : Text
  path : Text
  query : Option Text
  fragment : Option Text
  deriving DecidableEq

def Url.text (u : Url) : Text := compose u.scheme u.authority u.path u.query u.fragment

/-- The parts of the parser that rest on tables.  `authority` is the normal form of credentials,
host and port for a scheme, `none` if they are refused. -/
structure UrlTables where
  authority : Text → Text → Option Text
  encodePath : Char → Text
  encodeQuery : Char → Text
  encodeFragment : Char → Text

/-- Slashes of both kinds separate, in these schemes. -/
def isSeparator (c : Char) : Bool := c = '/' || c = '\\'

def endsAuthority (c : Char) : Bool := isSeparator c || c = '?' || c = '#'

def isSingleDot (segment : Text) : Bool :=
  segment = ".".toList || Text.lower segment = "%2e".toList

def isDoubleDot (segment : Text) : Bool :=
  segment = "..".toList || Text.lower segment = ".%2e".toList ||
    Text.lower segment = "%2e.".toList || Text.lower segment = "%2e%2e".toList

/-- The text without control characters and spaces at its ends, and without tabs and newlines. -/
def clean (t : Text) : Text :=
  ((t.dropWhile isControlOrSpace).rdropWhile isControlOrSpace).filter fun c => !isTabOrNewline c

/-- The segments, latest first, after the segment in the buffer and a separator. -/
def push (segments : List Text) (buffer : Text) : List Text :=
  if isDoubleDot buffer then segments.tail
  else if isSingleDot buffer then segments
  else buffer :: segments

def finish (segments : List Text) (buffer : Text) : List Text :=
  if isDoubleDot buffer then [] :: segments.tail
  else if isSingleDot buffer then [] :: segments
  else buffer :: segments

def pathText (segments : List Text) : Text := segments.reverse.flatMap fun segment => '/' :: segment

namespace UrlTables

variable (tables : UrlTables)

def pathStep (state : List Text × Text) (c : Char) : List Text × Text :=
  if isSeparator c then (push state.1 state.2, []) else (state.1, state.2 ++ tables.encodePath c)

/-- The segments of a path, which is empty or begins with a separator. -/
def segments (path : Text) : List Text :=
  let state := (path.drop 1).foldl tables.pathStep ([], [])
  finish state.1 state.2

/-- The parser of the URL Standard, where the text is an `http` or `https` URL of its own. -/
def parse (t : Text) : Option Url :=
  match cut ':' (clean t) with
  | (scheme, some rest) =>
    let scheme := Text.lower scheme
    if scheme = "http".toList ∨ scheme = "https".toList then
      -- Any number of slashes, also none.
      let rest := rest.dropWhile isSeparator
      let (before, fragment) := cut '#' (rest.dropWhile fun c => !endsAuthority c)
      let (path, query) := cut '?' before
      (tables.authority scheme (rest.takeWhile fun c => !endsAuthority c)).map fun authority =>
        ⟨scheme, authority, pathText (tables.segments path),
          query.map fun q => q.flatMap tables.encodeQuery,
          fragment.map fun f => f.flatMap tables.encodeFragment⟩
    else none
  | (_, none) => none

/-- What the standard says of the tables.  The last character of an authority belongs to its host
or port, which have no control characters or spaces; what is encoded has none and no
separators, and letters are encoded as themselves. -/
structure Documented (checkNetloc : Text → Bool) : Prop where
  authority_last : ∀ scheme given authority, tables.authority scheme given = some authority →
    ∀ c ∈ given.getLast?, isControlOrSpace c = false
  authority_chars : ∀ scheme given authority, tables.authority scheme given = some authority →
    ∀ c ∈ authority, isControlOrSpace c = false ∧ endsAuthority c = false
  authority_check : ∀ scheme given authority, tables.authority scheme given = some authority →
    authority ≠ [] ∧ checkNetloc authority = true
  path_letter : ∀ c : Char, c.isAlpha = true → tables.encodePath c = [c]
  path_chars : ∀ c, endsAuthority c = false → ∀ d ∈ tables.encodePath c,
    isControlOrSpace d = false ∧ endsAuthority d = false
  query_chars : ∀ c, c ≠ '#' → ∀ d ∈ tables.encodeQuery c, isControlOrSpace d = false ∧ d ≠ '#'
  fragment_chars : ∀ c, ∀ d ∈ tables.encodeFragment c, isControlOrSpace d = false

end UrlTables

def hostOf (body : Text) : Text :=
  (body.dropWhile isSeparator).takeWhile fun c => !isSeparator c

/-- The path of a body, from the separator after its authority on. -/
def restOf (body : Text) : Text :=
  (body.dropWhile isSeparator).dropWhile fun c => !isSeparator c

/-- A body has an authority if it is not all slashes. -/
def HasHost (body : Text) : Prop := ∃ c ∈ body, isSeparator c = false

variable {tables : UrlTables} {scheme body netloc path : Text} {query fragment : Option Text}
variable {t : Text}

theorem hostOf_restOf (body : Text) : body.dropWhile isSeparator = hostOf body ++ restOf body :=
  (List.takeWhile_append_dropWhile).symm

theorem restOf_head (body : Text) : ∀ c ∈ (restOf body).head?, isSeparator c = true := by
  intro c hc
  unfold restOf at hc
  have hnot := List.head?_dropWhile_not (fun c => !isSeparator c) (body.dropWhile isSeparator)
  rw [hc] at hnot
  simpa using hnot

theorem hostOf_not_separator {c : Char} (hc : c ∈ hostOf body) : isSeparator c = false := by
  simpa using List.mem_takeWhile_imp hc

theorem hostOf_subset {c : Char} (hc : c ∈ hostOf body) : c ∈ body :=
  (List.dropWhile_sublist _).subset ((List.takeWhile_sublist _).subset hc)

theorem restOf_subset {c : Char} (hc : c ∈ restOf body) : c ∈ body :=
  (List.dropWhile_sublist _).subset ((List.dropWhile_sublist _).subset hc)

theorem HasHost.append_left (h : HasHost body) (rest : Text) : HasHost (body ++ rest) := by
  obtain ⟨c, hc, hsep⟩ := h
  exact ⟨c, List.mem_append_left _ hc, hsep⟩

theorem HasHost.append_right (h : HasHost body) (slashes : Text) : HasHost (slashes ++ body) := by
  obtain ⟨c, hc, hsep⟩ := h
  exact ⟨c, List.mem_append_right _ hc, hsep⟩

theorem HasHost.dropWhile_append (h : HasHost body) (rest : Text) :
    (body ++ rest).dropWhile isSeparator = body.dropWhile isSeparator ++ rest := by
  obtain ⟨c, hc, hsep⟩ := h
  have hne : body.dropWhile isSeparator ≠ [] := by
    rw [ne_eq, List.dropWhile_eq_nil_iff]
    intro hall
    rw [hall c hc] at hsep
    cases hsep
  rw [List.dropWhile_append, if_neg (by simpa using hne)]

theorem hostOf_slashes {slashes : Text} (h : ∀ c ∈ slashes, c = '/') (body : Text) :
    hostOf (slashes ++ body) = hostOf body ∧ restOf (slashes ++ body) = restOf body := by
  have hslashes : ∀ c ∈ slashes, isSeparator c = true := fun c hc => by rw [h c hc]; rfl
  unfold hostOf restOf
  rw [List.dropWhile_append_of_pos hslashes]
  exact ⟨rfl, rfl⟩

theorem HasHost.append (h : HasHost body) {rest : Text}
    (hrest : ∀ c ∈ rest.head?, isSeparator c = true) :
    hostOf (body ++ rest) = hostOf body ∧ restOf (body ++ rest) = restOf body ++ rest := by
  have hstop : ∀ c ∈ (restOf body ++ rest).head?, (!isSeparator c) = false := by
    intro c hc
    rw [Bool.not_eq_false']
    cases hcases : restOf body with
    | nil =>
      rw [hcases] at hc
      exact hrest c hc
    | cons d tail =>
      rw [hcases] at hc
      exact restOf_head body c (by rw [hcases]; exact hc)
  have hkept : ∀ c ∈ hostOf body, (!isSeparator c) = true := fun c hc => by
    rw [hostOf_not_separator hc]
    rfl
  have hdrop : (body ++ rest).dropWhile isSeparator = hostOf body ++ (restOf body ++ rest) := by
    rw [h.dropWhile_append, hostOf_restOf, List.append_assoc]
  unfold hostOf restOf at *
  rw [hdrop]
  exact takeWhile_append_stop hkept hstop

theorem HasHost.ne_nil (h : HasHost body) : hostOf body ≠ [] := by
  intro hnil
  obtain ⟨c, hc, hsep⟩ := h
  have hdrop := hostOf_restOf body
  rw [hnil, List.nil_append] at hdrop
  have hbody : ∀ d ∈ body, isSeparator d = true := by
    cases hcases : restOf body with
    | nil =>
      rw [hcases] at hdrop
      exact fun d hd => List.dropWhile_eq_nil_iff.mp hdrop d hd
    | cons d tail =>
      have hhead := restOf_head body d (by rw [hcases]; rfl)
      have hnot := List.head?_dropWhile_not isSeparator body
      rw [hdrop, hcases] at hnot
      simp [hhead] at hnot
  rw [hbody c hc] at hsep
  cases hsep

theorem endsAuthority_head (body : Text) (query fragment : Option Text) :
    ∀ c ∈ (restOf body ++ (after '?' query ++ after '#' fragment)).head?,
      (!endsAuthority c) = false := by
  intro c hc
  rw [Bool.not_eq_false']
  unfold endsAuthority
  cases hrest : restOf body with
  | cons d rest =>
    rw [hrest] at hc
    obtain rfl : d = c := Option.some.inj hc
    rw [restOf_head body d (by rw [hrest]; rfl)]
    rfl
  | nil =>
    rw [hrest, List.nil_append] at hc
    cases query with
    | some q =>
      obtain rfl : '?' = c := Option.some.inj hc
      rfl
    | none =>
      cases fragment with
      | some f =>
        obtain rfl : '#' = c := Option.some.inj hc
        rfl
      | none => cases hc

theorem parse_spell (ht : clean t = spell scheme body query fragment)
    (h : Spelled scheme body query) (hhost : HasHost body) :
    tables.parse t =
      if Text.lower scheme = "http".toList ∨ Text.lower scheme = "https".toList then
        (tables.authority (Text.lower scheme) (hostOf body)).map fun authority =>
          ⟨Text.lower scheme, authority, pathText (tables.segments (restOf body)),
            query.map fun q => q.flatMap tables.encodeQuery,
            fragment.map fun f => f.flatMap tables.encodeFragment⟩
      else none := by
  have hcut : cut ':' (clean t) = (scheme, some (body ++ (after '?' query ++ after '#' fragment))) := by
    rw [ht]
    exact cut_append (colon_not_mem h.scheme) (some _)
  have hslashes : (body ++ (after '?' query ++ after '#' fragment)).dropWhile isSeparator =
      hostOf body ++ (restOf body ++ (after '?' query ++ after '#' fragment)) := by
    rw [hhost.dropWhile_append, hostOf_restOf, List.append_assoc]
  have hauthority : ∀ c ∈ hostOf body, (!endsAuthority c) = true := by
    intro c hc
    have hmem := hostOf_subset hc
    simp only [endsAuthority, hostOf_not_separator hc, Bool.false_or, Bool.not_eq_true',
      Bool.or_eq_false_iff, decide_eq_false_iff_not]
    exact ⟨ne_of_mem_of_not_mem hmem h.not_query, ne_of_mem_of_not_mem hmem h.not_fragment⟩
  obtain ⟨htake, hdrop⟩ := takeWhile_append_stop hauthority (endsAuthority_head body query fragment)
  obtain ⟨hfragment, hquery⟩ := cut_marks fragment
    (fun hmem => h.not_query (restOf_subset hmem))
    (fun hmem => h.not_fragment (restOf_subset hmem)) h.query
  unfold UrlTables.parse
  rw [hcut]
  simp only
  rw [hslashes, htake, hdrop, hfragment]
  simp only
  rw [hquery]

theorem rdropWhile_append {p : Char → Bool} {a b : Text} (h : ∃ c ∈ b, p c = false) :
    (a ++ b).rdropWhile p = a ++ b.rdropWhile p := by
  obtain ⟨c, hc, hp⟩ := h
  have hne : b.reverse.dropWhile p ≠ [] := by
    rw [ne_eq, List.dropWhile_eq_nil_iff]
    intro hall
    rw [hall c (List.mem_reverse.mpr hc)] at hp
    cases hp
  unfold List.rdropWhile
  rw [List.reverse_append, List.dropWhile_append, if_neg (by simpa using hne),
    List.reverse_append, List.reverse_reverse]

theorem dropWhile_filter {p q : Char → Bool} (h : ∀ c, q c = false → p c = true) (l : Text) :
    (l.filter q).dropWhile p = (l.dropWhile p).filter q := by
  induction l with
  | nil => rfl
  | cons c l ih =>
    cases hq : q c with
    | true =>
      rw [List.filter_cons_of_pos hq]
      cases hp : p c with
      | true => rw [List.dropWhile_cons_of_pos hp, List.dropWhile_cons_of_pos hp, ih]
      | false =>
        rw [List.dropWhile_cons_of_neg (by simp [hp]), List.dropWhile_cons_of_neg (by simp [hp]),
          List.filter_cons_of_pos hq]
    | false =>
      rw [List.filter_cons_of_neg (by simp [hq]), List.dropWhile_cons_of_pos (h c hq), ih]

theorem clean_eq (t : Text) : clean t = (prepare t).rdropWhile isControlOrSpace := by
  have htab : ∀ c, (!isTabOrNewline c) = false → isControlOrSpace c = true := by
    intro c hc
    rw [Bool.not_eq_false'] at hc
    exact isControlOrSpace_of_tab hc
  unfold clean prepare List.rdropWhile
  rw [← List.filter_reverse, dropWhile_filter htab, List.filter_reverse]

theorem rdropWhile_cons {p : Char → Bool} {c : Char} (h : p c = false) (t : Text) :
    (c :: t).rdropWhile p = c :: t.rdropWhile p := by
  unfold List.rdropWhile
  rw [List.reverse_cons, List.dropWhile_append]
  split
  · next hempty =>
    rw [List.isEmpty_iff.mp hempty, List.dropWhile_cons_of_neg (by simp [h])]
    rfl
  · rw [List.reverse_append]
    rfl

theorem rdropWhile_of_last {p : Char → Bool} {t : Text} (h : ∀ c ∈ t.getLast?, p c = false) :
    t.rdropWhile p = t := by
  rw [List.rdropWhile_eq_self_iff]
  intro hne
  rw [h _ (List.getLast?_eq_some_getLast hne)]
  exact Bool.false_ne_true

theorem mem_of_mem_rdropWhile {p : Char → Bool} {t : Text} {c : Char} (h : c ∈ t.rdropWhile p) :
    c ∈ t := by
  have hpre := List.rdropWhile_prefix p t
  exact hpre.subset h

/-- The query as the standard reads it: its end is only cleaned if nothing comes after it. -/
def cleanQuery (query fragment : Option Text) : Option Text :=
  if fragment = none then query.map (List.rdropWhile isControlOrSpace) else query

theorem cleanQuery_getD (query fragment : Option Text) : (cleanQuery query fragment).getD [] =
    if fragment = none then (query.getD []).rdropWhile isControlOrSpace else query.getD [] := by
  unfold cleanQuery
  split
  · cases query <;> rfl
  · rfl

theorem cleanQuery_unlessEmpty
    (h : fragment = some [] → ∀ c ∈ (query.getD []).getLast?, isControlOrSpace c = false) :
    (cleanQuery (unlessEmpty (query.getD [])) (unlessEmpty (fragment.getD []))).getD [] =
      (cleanQuery query fragment).getD [] := by
  rw [cleanQuery_getD, cleanQuery_getD, unlessEmpty_getD]
  cases fragment with
  | none => rfl
  | some f =>
    by_cases hf : f = []
    · subst hf
      rw [rdropWhile_of_last (h rfl), ite_self, ite_self]
    · have hput : unlessEmpty ((some f).getD []) = some f := if_neg hf
      rw [hput]

theorem getD_map {f : Text → Text} (hf : f [] = []) (o : Option Text) :
    (o.map f).getD [] = f (o.getD []) := by
  cases o with
  | none => exact hf.symm
  | some s => rfl

theorem clean_spell (ht : prepare t = spell scheme body query fragment)
    (h : Spelled scheme body query) :
    ∃ body', clean t = spell scheme body' (cleanQuery query fragment)
        (fragment.map (List.rdropWhile isControlOrSpace)) ∧
      Spelled scheme body' (cleanQuery query fragment) ∧
      (body' = body ∨ body' = body.rdropWhile isControlOrSpace) := by
  -- The body can only lose something if nothing comes after it.
  have hhead : ∀ rest : Text, (scheme ++ ':' :: rest).rdropWhile isControlOrSpace =
      scheme ++ ':' :: rest.rdropWhile isControlOrSpace := by
    intro rest
    rw [rdropWhile_append ⟨':', List.mem_cons_self, rfl⟩, rdropWhile_cons rfl]
  rw [clean_eq, ht]
  unfold spell
  rw [hhead]
  cases fragment with
  | some f =>
    refine ⟨body, ?_, h, Or.inl rfl⟩
    have hmark : '#' ∈ after '#' (some f) := List.mem_cons_self
    rw [rdropWhile_append ⟨'#', List.mem_append_right _ hmark, rfl⟩,
      rdropWhile_append ⟨'#', hmark, rfl⟩,
      show (after '#' (some f)).rdropWhile isControlOrSpace =
        '#' :: f.rdropWhile isControlOrSpace from rdropWhile_cons rfl f]
    rfl
  | none =>
    cases query with
    | some q =>
      have hafter : after '?' (some q) ++ after '#' none = '?' :: q := List.append_nil _
      refine ⟨body, ?_, ⟨h.alpha, h.scheme, h.not_query, h.not_fragment, ?_⟩, Or.inl rfl⟩
      · rw [hafter, rdropWhile_append ⟨'?', List.mem_cons_self, rfl⟩,
          show ('?' :: q).rdropWhile isControlOrSpace = '?' :: q.rdropWhile isControlOrSpace from
            rdropWhile_cons rfl q]
        simp [cleanQuery, after]
      · intro q' hq'
        obtain rfl : q.rdropWhile isControlOrSpace = q' := Option.some.inj hq'
        exact fun hmem => h.query q rfl (mem_of_mem_rdropWhile hmem)
    | none =>
      refine ⟨body.rdropWhile isControlOrSpace, ?_, ⟨h.alpha, h.scheme,
        fun hmem => h.not_query (mem_of_mem_rdropWhile hmem),
        fun hmem => h.not_fragment (mem_of_mem_rdropWhile hmem), h.query⟩, Or.inr rfl⟩
      rw [show body ++ (after '?' none ++ after '#' none) = body from List.append_nil body]
      simp [cleanQuery, after]

theorem isSeparator_kept {c : Char} (h : isSeparator c = true) : isControlOrSpace c = false := by
  simp only [isSeparator, Bool.or_eq_true, decide_eq_true_eq] at h
  rcases h with rfl | rfl <;> decide

theorem hostOf_rdropWhile (h : HasHost body)
    (hlast : ∀ c ∈ (hostOf body).getLast?, isControlOrSpace c = false) :
    HasHost (body.rdropWhile isControlOrSpace) ∧
      hostOf (body.rdropWhile isControlOrSpace) = hostOf body := by
  obtain ⟨front, hfront⟩ : ∃ front, front = body.takeWhile isSeparator ++ hostOf body := ⟨_, rfl⟩
  have hbody : body = front ++ restOf body := by
    rw [hfront, List.append_assoc, ← hostOf_restOf, List.takeWhile_append_dropWhile]
  have hhost : HasHost front := by
    have hmem := List.getLast_mem h.ne_nil
    exact ⟨_, by rw [hfront]; exact List.mem_append_right _ hmem, hostOf_not_separator hmem⟩
  cases hrest : restOf body with
  | nil =>
    have hkept : body.rdropWhile isControlOrSpace = body := by
      refine rdropWhile_of_last fun c hc => hlast c ?_
      rw [hbody, hrest, List.append_nil, hfront, List.getLast?_append_of_ne_nil _ h.ne_nil] at hc
      exact hc
    rw [hkept]
    exact ⟨h, rfl⟩
  | cons d rest =>
    have hd : isSeparator d = true := restOf_head body d (by rw [hrest]; rfl)
    have hkept : body.rdropWhile isControlOrSpace = front ++ d :: rest.rdropWhile isControlOrSpace := by
      rw [← rdropWhile_cons (isSeparator_kept hd), hbody, hrest]
      exact rdropWhile_append ⟨d, List.mem_cons_self, isSeparator_kept hd⟩
    have hsep : ∀ (tail : Text), ∀ c ∈ (d :: tail).head?, isSeparator c = true := by
      intro tail c hc
      obtain rfl : d = c := Option.some.inj hc
      exact hd
    rw [hkept]
    refine ⟨hhost.append_left _, ?_⟩
    calc hostOf (front ++ d :: rest.rdropWhile isControlOrSpace)
        = hostOf front := (hhost.append (hsep _)).1
      _ = hostOf (front ++ d :: rest) := (hhost.append (hsep _)).1.symm
      _ = hostOf body := by rw [← hrest, ← hbody]

theorem isAlpha_of_toLower {c : Char} (h : c.toLower ∈ "https".toList) : c.isAlpha = true := by
  have hsmall : ∀ d ∈ "https".toList, d.isAlpha = true := Text.forall_mem_of_all rfl
  rw [← Char.isAlpha_toLower_eq_isAlpha]
  exact hsmall _ h

theorem scheme_of_parse {u : Url} (h : tables.parse t = some u) :
    ∃ scheme rest, prepare t = scheme ++ ':' :: rest ∧ Text.lower scheme = u.scheme ∧
      (Text.lower scheme = "http".toList ∨ Text.lower scheme = "https".toList) ∧
      scheme.head?.any Char.isAlpha = true ∧ scheme.all isSchemeChar = true := by
  obtain ⟨hclean, -⟩ := cut_spec ':' (clean t)
  obtain ⟨tail, htail⟩ := List.rdropWhile_prefix isControlOrSpace (prepare t)
  rw [← clean_eq] at htail
  unfold UrlTables.parse at h
  split at h
  · next scheme rest hcut =>
    simp only at h
    split at h
    · next hscheme =>
      obtain ⟨authority, -, rfl⟩ := Option.map_eq_some_iff.mp h
      have halpha : ∀ c ∈ scheme, c.isAlpha = true := by
        intro c hc
        refine isAlpha_of_toLower ?_
        have hmem : c.toLower ∈ Text.lower scheme := List.mem_map_of_mem hc
        rcases hscheme with hs | hs
        · rw [hs] at hmem
          have hsub : ∀ d ∈ "http".toList, d ∈ "https".toList := Text.forall_mem_of_all rfl
          exact hsub _ hmem
        · rw [hs] at hmem
          exact hmem
      refine ⟨scheme, rest ++ tail, ?_, rfl, hscheme, ?_, ?_⟩
      · rw [← htail, ← hclean, hcut]
        exact List.append_assoc _ _ _
      · cases scheme with
        | nil => rcases hscheme with hs | hs <;> cases hs
        | cons c scheme => exact halpha c List.mem_cons_self
      · refine List.all_eq_true.mpr fun c hc => ?_
        simp [isSchemeChar, Char.isAlphanum, halpha c hc]
    · cases h
  · cases h

structure IsWord (segment : Text) : Prop where
  ne_nil : segment ≠ []
  lower : ∀ c ∈ segment, c.isLower = true

theorem IsWord.not_dot {segment : Text} (h : IsWord segment) :
    isSingleDot segment = false ∧ isDoubleDot segment = false := by
  have hlower : Text.lower segment = segment :=
    (List.map_congr_left fun c hc => Char.toLower_eq_of_not_isUpper
      (Char.not_isUpper_of_isLower (h.lower c hc))).trans (List.map_id segment)
  have hno : ∀ s : Text, '.' ∈ s ∨ '%' ∈ s → segment ≠ s := by
    rintro s hs rfl
    rcases hs with hs | hs
    · exact absurd (h.lower _ hs) (by decide)
    · exact absurd (h.lower _ hs) (by decide)
  unfold isSingleDot isDoubleDot
  rw [hlower]
  simp only [Bool.or_eq_false_iff, decide_eq_false_iff_not]
  refine ⟨⟨hno _ ?_, hno _ ?_⟩, ⟨⟨hno _ ?_, hno _ ?_⟩, hno _ ?_⟩, hno _ ?_⟩ <;> decide

theorem push_word {segment : Text} (h : IsWord segment) (segments : List Text) :
    push segments segment = segment :: segments ∧ finish segments segment = segment :: segments := by
  obtain ⟨hsingle, hdouble⟩ := h.not_dot
  simp [push, finish, hsingle, hdouble]

theorem push_nil (segments : List Text) :
    push segments [] = [] :: segments ∧ finish segments [] = [] :: segments :=
  ⟨rfl, rfl⟩

namespace UrlTables

variable {checkNetloc : Text → Bool}

theorem pathStep_slash (tables : UrlTables) (state : List Text × Text) :
    tables.pathStep state '/' = (push state.1 state.2, []) := rfl

theorem foldl_word (h : tables.Documented checkNetloc) (segments : List Text) (buffer : Text)
    {word : Text} (hword : ∀ c ∈ word, c.isLower = true) :
    word.foldl tables.pathStep (segments, buffer) = (segments, buffer ++ word) := by
  induction word generalizing buffer with
  | nil => simp
  | cons c word ih =>
    obtain ⟨hc, hrest⟩ := List.forall_mem_cons.mp hword
    have hsep : isSeparator c = false := by
      simp only [isSeparator, Bool.or_eq_false_iff, decide_eq_false_iff_not]
      constructor <;> rintro rfl <;> exact absurd hc (by decide)
    have hstep : tables.pathStep (segments, buffer) c = (segments, buffer ++ [c]) := by
      unfold pathStep
      rw [hsep, h.path_letter c (by simp [Char.isAlpha, hc])]
      rfl
    rw [List.foldl_cons, hstep, ih _ hrest, List.append_assoc]
    rfl

theorem foldl_slashes (tables : UrlTables) (segments : List Text) (k : ℕ) :
    (List.replicate k '/').foldl tables.pathStep (segments, []) =
      (List.replicate k [] ++ segments, []) := by
  induction k generalizing segments with
  | zero => rfl
  | succ k ih =>
    rw [List.replicate_succ, List.foldl_cons, pathStep_slash, (push_nil segments).1, ih,
      List.replicate_succ', List.append_assoc]
    rfl

theorem foldl_words (h : tables.Documented checkNetloc) (segments : List Text) {a b : Text}
    (ha : IsWord a) (hb : IsWord b) (k : ℕ) :
    let state := (a ++ '/' :: b ++ List.replicate k '/').foldl tables.pathStep (segments, [])
    finish state.1 state.2 = List.replicate k [] ++ b :: a :: segments := by
  intro state
  have hwords : (a ++ '/' :: b).foldl tables.pathStep (segments, []) = (a :: segments, b) := by
    rw [List.foldl_append, foldl_word h segments [] ha.lower, List.foldl_cons, pathStep_slash,
      List.nil_append, (push_word ha segments).1, foldl_word h _ [] hb.lower, List.nil_append]
  have hstate : state = (List.replicate k '/').foldl tables.pathStep (a :: segments, b) := by
    rw [← hwords, ← List.foldl_append]
  rw [hstate]
  cases k with
  | zero => exact (push_word hb _).2
  | succ k =>
    rw [List.replicate_succ, List.foldl_cons, pathStep_slash, (push_word hb _).1, foldl_slashes]
    rfl

theorem segments_words (h : tables.Documented checkNetloc) (lead : Text) {a b : Text}
    (ha : IsWord a) (hb : IsWord b) (k : ℕ) : ∃ segments, tables.segments
      (lead ++ '/' :: (a ++ '/' :: b ++ List.replicate k '/')) =
        List.replicate k [] ++ b :: a :: segments := by
  unfold UrlTables.segments
  cases lead with
  | nil => exact ⟨[], foldl_words h [] ha hb k⟩
  | cons c lead =>
    rw [List.cons_append, List.drop_one, List.tail_cons, List.foldl_append, List.foldl_cons,
      pathStep_slash]
    exact ⟨_, foldl_words h _ ha hb k⟩

end UrlTables

theorem pathText_append (later segments : List Text) :
    pathText (later ++ segments) = pathText segments ++ pathText later := by
  unfold pathText
  rw [List.reverse_append, List.flatMap_append]

theorem pathText_slashes (k : ℕ) : pathText (List.replicate k []) = List.replicate k '/' := by
  induction k with
  | zero => rfl
  | succ k ih =>
    rw [List.replicate_succ', pathText_append, ih, List.replicate_succ]
    rfl

theorem pathText_words (a b : Text) (segments : List Text) (k : ℕ) :
    pathText (List.replicate k [] ++ b :: a :: segments) =
      pathText segments ++ ('/' :: a ++ '/' :: b) ++ List.replicate k '/' := by
  rw [pathText_append, pathText_slashes, show b :: a :: segments = [b, a] ++ segments from rfl,
    pathText_append]
  simp [pathText]

/-- A path that ends in two words keeps them, and the slashes after them. -/
theorem parse_words {checkNetloc : Text → Bool} (hdoc : tables.Documented checkNetloc) {a b : Text}
    (ha : IsWord a) (hb : IsWord b) {k : ℕ} {u : Url}
    (ht : clean t = spell scheme (body ++ ('/' :: a ++ '/' :: b ++ List.replicate k '/')) query fragment)
    (h : Spelled scheme (body ++ ('/' :: a ++ '/' :: b ++ List.replicate k '/')) query)
    (hhost : HasHost body) (hu : tables.parse t = some u) :
    (Text.lower scheme = "http".toList ∨ Text.lower scheme = "https".toList) ∧
      u.scheme = Text.lower scheme ∧
      tables.authority (Text.lower scheme) (hostOf body) = some u.authority ∧
      (∃ segments, u.path =
        pathText segments ++ ('/' :: a ++ '/' :: b) ++ List.replicate k '/') ∧
      u.query = query.map (fun q => q.flatMap tables.encodeQuery) ∧
      u.fragment = fragment.map fun f => f.flatMap tables.encodeFragment := by
  have hsep : ∀ c ∈ ('/' :: a ++ '/' :: b ++ List.replicate k '/').head?, isSeparator c = true := by
    intro c hc
    obtain rfl : '/' = c := Option.some.inj hc
    rfl
  obtain ⟨hhostOf, hrestOf⟩ := hhost.append hsep
  rw [parse_spell ht h (hhost.append_left _), hhostOf, hrestOf] at hu
  split at hu
  · next hscheme =>
    obtain ⟨authority, hauthority, rfl⟩ := Option.map_eq_some_iff.mp hu
    obtain ⟨segments, hsegments⟩ := UrlTables.segments_words hdoc (restOf body) ha hb k
    refine ⟨hscheme, rfl, hauthority, ⟨segments, ?_⟩, rfl, rfl⟩
    rw [← pathText_words, ← hsegments]
    rfl
  · cases hu

def IsSegment (segment : Text) : Prop :=
  ∀ c ∈ segment, isControlOrSpace c = false ∧ endsAuthority c = false

theorem push_isSegment {segments : List Text} {buffer : Text}
    (h : ∀ segment ∈ segments, IsSegment segment) (hbuffer : IsSegment buffer) :
    ∀ segment ∈ push segments buffer, IsSegment segment := by
  intro segment hmem
  unfold push at hmem
  split at hmem
  · exact h segment (List.mem_of_mem_tail hmem)
  · split at hmem
    · exact h segment hmem
    · rcases List.mem_cons.mp hmem with rfl | hmem
      · exact hbuffer
      · exact h segment hmem

theorem finish_isSegment {segments : List Text} {buffer : Text}
    (h : ∀ segment ∈ segments, IsSegment segment) (hbuffer : IsSegment buffer) :
    ∀ segment ∈ finish segments buffer, IsSegment segment := by
  have hnil : IsSegment [] := fun c hc => absurd hc List.not_mem_nil
  intro segment hmem
  unfold finish at hmem
  split at hmem
  · rcases List.mem_cons.mp hmem with rfl | hmem
    · exact hnil
    · exact h segment (List.mem_of_mem_tail hmem)
  · split at hmem
    · rcases List.mem_cons.mp hmem with rfl | hmem
      · exact hnil
      · exact h segment hmem
    · rcases List.mem_cons.mp hmem with rfl | hmem
      · exact hbuffer
      · exact h segment hmem

namespace UrlTables

variable {checkNetloc : Text → Bool}

/-- What the path state keeps of its segments and its buffer. -/
def KeepsSegments (state : List Text × Text) : Prop :=
  (∀ segment ∈ state.1, IsSegment segment) ∧ IsSegment state.2

theorem pathStep_keeps (h : tables.Documented checkNetloc) {state : List Text × Text} {c : Char}
    (hc : c ≠ '?' ∧ c ≠ '#') (hstate : KeepsSegments state) :
    KeepsSegments (tables.pathStep state c) := by
  unfold pathStep
  split
  · exact ⟨push_isSegment hstate.1 hstate.2, fun d hd => absurd hd List.not_mem_nil⟩
  · next hsep =>
    have hends : endsAuthority c = false := by
      unfold endsAuthority
      simp only [Bool.or_eq_false_iff, decide_eq_false_iff_not]
      exact ⟨⟨Bool.not_eq_true _ ▸ hsep, hc.1⟩, hc.2⟩
    refine ⟨hstate.1, fun d hd => ?_⟩
    rcases List.mem_append.mp hd with hd | hd
    · exact hstate.2 d hd
    · exact h.path_chars c hends d hd

theorem segments_isSegment (h : tables.Documented checkNetloc) {path : Text} (hquery : '?' ∉ path)
    (hfragment : '#' ∉ path) : ∀ segment ∈ tables.segments path, IsSegment segment := by
  have hrun : ∀ (rest : Text) (state : List Text × Text), (∀ c ∈ rest, c ≠ '?' ∧ c ≠ '#') →
      KeepsSegments state → KeepsSegments (rest.foldl tables.pathStep state) := by
    intro rest
    induction rest with
    | nil => exact fun state _ hstate => hstate
    | cons c rest ih =>
      intro state hrest hstate
      obtain ⟨hc, hrest⟩ := List.forall_mem_cons.mp hrest
      exact ih _ hrest (pathStep_keeps h hc hstate)
  have hstate := hrun (path.drop 1) ([], []) (fun c hc => by
    have hmem := List.mem_of_mem_drop hc
    exact ⟨ne_of_mem_of_not_mem hmem hquery, ne_of_mem_of_not_mem hmem hfragment⟩)
    ⟨fun segment hmem => absurd hmem List.not_mem_nil, fun c hc => absurd hc List.not_mem_nil⟩
  exact finish_isSegment hstate.1 hstate.2

theorem parse_eq_some {u : Url} (h : tables.parse t = some u) :
    (u.scheme = "http".toList ∨ u.scheme = "https".toList) ∧
      (∃ given, tables.authority u.scheme given = some u.authority) ∧
      (∃ path, u.path = pathText (tables.segments path) ∧ '?' ∉ path ∧ '#' ∉ path) ∧
      (∃ query : Option Text, u.query = query.map (fun q => q.flatMap tables.encodeQuery) ∧
        ∀ q ∈ query, '#' ∉ q) ∧
      ∃ fragment : Option Text, u.fragment = fragment.map fun f => f.flatMap tables.encodeFragment := by
  unfold parse at h
  split at h
  · next scheme rest hcut =>
    simp only at h
    split at h
    · next hscheme =>
      obtain ⟨authority, hauthority, rfl⟩ := Option.map_eq_some_iff.mp h
      obtain ⟨hpath, hquery⟩ := cut_spec '?'
        (cut '#' ((rest.dropWhile isSeparator).dropWhile fun c => !endsAuthority c)).1
      obtain ⟨-, hfragment⟩ := cut_spec '#'
        ((rest.dropWhile isSeparator).dropWhile fun c => !endsAuthority c)
      rw [← hpath, List.mem_append, not_or] at hfragment
      refine ⟨hscheme, ⟨_, hauthority⟩, ⟨_, rfl, hquery, hfragment.1⟩, ⟨_, rfl, ?_⟩, _, rfl⟩
      intro q hq hmem
      rw [show (cut '?' _).2 = some q from hq] at hfragment
      exact hfragment.2 (List.mem_cons_of_mem _ hmem)
    · cases h
  · cases h

end UrlTables

theorem pathText_rooted (segments : List Text) : IsRooted (pathText segments) := by
  unfold IsRooted pathText
  cases segments.reverse with
  | nil => exact Or.inl rfl
  | cons segment rest => exact Or.inr rfl

theorem pathText_chars {segments : List Text} (h : ∀ segment ∈ segments, IsSegment segment) :
    ∀ c ∈ pathText segments, isControlOrSpace c = false ∧ c ≠ '?' ∧ c ≠ '#' := by
  intro c hc
  obtain ⟨segment, hsegment, hmem⟩ := List.mem_flatMap.mp hc
  rcases List.mem_cons.mp hmem with rfl | hmem
  · decide
  · obtain ⟨hcontrol, hends⟩ := h segment (List.mem_reverse.mp hsegment) c hmem
    simp only [endsAuthority, Bool.or_eq_false_iff, decide_eq_false_iff_not] at hends
    exact ⟨hcontrol, hends.1.2, hends.2⟩

structure UrlChars (u : Url) : Prop where
  scheme : u.scheme = "http".toList ∨ u.scheme = "https".toList
  authority : ∀ c ∈ u.authority, isControlOrSpace c = false ∧ endsAuthority c = false
  rooted : IsRooted u.path
  path : ∀ c ∈ u.path, isControlOrSpace c = false ∧ c ≠ '?' ∧ c ≠ '#'
  query : ∀ q ∈ u.query, ∀ c ∈ q, isControlOrSpace c = false ∧ c ≠ '#'
  fragment : ∀ f ∈ u.fragment, ∀ c ∈ f, isControlOrSpace c = false

theorem chars_of_parse {checkNetloc : Text → Bool} {u : Url} (hdoc : tables.Documented checkNetloc)
    (h : tables.parse t = some u) : UrlChars u := by
  obtain ⟨hscheme, ⟨given, hauthority⟩, ⟨path, hpath, hquestion, hhash⟩, ⟨query, hquery, hno⟩,
    ⟨fragment, hfragment⟩⟩ := UrlTables.parse_eq_some h
  refine ⟨hscheme, hdoc.authority_chars _ _ _ hauthority, ?_, ?_, ?_, ?_⟩
  · rw [hpath]
    exact pathText_rooted _
  · rw [hpath]
    exact pathText_chars (UrlTables.segments_isSegment hdoc hquestion hhash)
  · intro q hq c hc
    rw [hquery] at hq
    obtain ⟨q', hq', rfl⟩ := Option.map_eq_some_iff.mp hq
    obtain ⟨d, hd, hc⟩ := List.mem_flatMap.mp hc
    exact hdoc.query_chars d (ne_of_mem_of_not_mem hd (hno q' hq')) c hc
  · intro f hf c hc
    rw [hfragment] at hf
    obtain ⟨f', -, rfl⟩ := Option.map_eq_some_iff.mp hf
    obtain ⟨d, -, hc⟩ := List.mem_flatMap.mp hc
    exact hdoc.fragment_chars d c hc

theorem UrlChars.lower {u : Url} (h : UrlChars u) : Text.lower u.scheme = u.scheme := by
  rcases h.scheme with hs | hs <;> rw [hs] <;> rfl

theorem UrlChars.parts {u : Url} (h : UrlChars u) :
    Parts u.scheme u.authority u.path u.query := by
  have hauthority : ∀ c ∈ u.authority, isDelimiter c = false := by
    intro c hc
    have hends := (h.authority c hc).2
    simp only [endsAuthority, isSeparator, Bool.or_eq_false_iff] at hends
    simp only [isDelimiter, Bool.or_eq_false_iff]
    exact ⟨⟨hends.1.1.1, hends.1.2⟩, hends.2⟩
  have hno : ∀ mark, isDelimiter mark = true → (∀ c ∈ u.path, c ≠ mark) →
      mark ∉ u.authority ++ u.path := by
    intro mark hmark hpathmark hmem
    rcases List.mem_append.mp hmem with hmem | hmem
    · rw [hauthority mark hmem] at hmark
      cases hmark
    · exact hpathmark mark hmem rfl
  refine ⟨⟨?_, ?_, ?_, ?_, ?_⟩, hauthority, h.rooted⟩
  · rcases h.scheme with hs | hs <;> rw [hs] <;> rfl
  · rcases h.scheme with hs | hs <;> rw [hs] <;> rfl
  · exact hno '?' rfl fun c hc => (h.path c hc).2.1
  · exact hno '#' rfl fun c hc => (h.path c hc).2.2
  · exact fun q hq hmem => (h.query q hq _ hmem).2 rfl

theorem after_kept {mark : Char} {o : Option Text} (hmark : isControlOrSpace mark = false)
    (ho : ∀ s ∈ o, ∀ c ∈ s, isControlOrSpace c = false) :
    ∀ c ∈ after mark o, isControlOrSpace c = false := by
  intro c hc
  cases o with
  | none => cases hc
  | some s =>
    rcases List.mem_cons.mp hc with rfl | hc
    · exact hmark
    · exact ho s rfl c hc

theorem UrlChars.text_kept {u : Url} (h : UrlChars u) :
    ∀ c ∈ u.text, isControlOrSpace c = false := by
  intro c hc
  rcases mem_spell.mp hc with hc | rfl | hc | hc | hc
  · exact h.parts.scheme_kept c hc
  · rfl
  · simp only [List.mem_cons, List.mem_append] at hc
    rcases hc with rfl | rfl | hc | hc
    · rfl
    · rfl
    · exact (h.authority c hc).1
    · exact (h.path c hc).1
  · exact after_kept rfl (fun q hq d hd => (h.query q hq d hd).1) c hc
  · exact after_kept rfl h.fragment c hc

theorem prepare_of_chars {t : Text} (h : ∀ c ∈ t, isControlOrSpace c = false) : prepare t = t := by
  refine prepare_eq (fun c hc => h c (List.mem_of_mem_head? hc)) fun c hc => ?_
  refine Bool.eq_false_iff.mpr fun htab => ?_
  have hcontrol := isControlOrSpace_of_tab htab
  rw [h c hc] at hcontrol
  cases hcontrol

/-- `urlsplit` reads the parts of a URL back. -/
theorem urlsplit_text {checkNetloc : Text → Bool} {u : Url} (hdoc : tables.Documented checkNetloc)
    (h : tables.parse t = some u) : urlsplit checkNetloc u.text =
      some ⟨u.scheme, u.authority, u.path, u.query.getD [], u.fragment.getD []⟩ := by
  have hchars := chars_of_parse hdoc h
  obtain ⟨-, ⟨given, hauthority⟩, -⟩ := UrlTables.parse_eq_some h
  have hsplit := urlsplit_compose (prepare_of_chars hchars.text_kept) hchars.parts
    (hdoc.authority_check _ _ _ hauthority).2
  rw [hchars.lower] at hsplit
  exact hsplit

end Urls
