import WorkerBridge.HttpUrl

namespace WorkerBridge

open Urls

def chatCompletions : Text := "/chat/completions".toList

/-- `path.rstrip("/")`. -/
def rstripSlashes (path : Text) : Text := path.rdropWhile fun c => decide (c = '/')

/-- The path of `WorkerConfig.normalize_endpoint_url`, of a path without slashes at its end. -/
def normalizedPath (path : Text) : Text :=
  if "/v1".toList <:+ path then path ++ chatCompletions
  else if path = [] ∨ path = ['/'] then "/v1/chat/completions".toList
  else path ++ "/v1/chat/completions".toList

section

variable (httpUrl : Text → Option Url) (tables : UrlTables) (checkNetloc : Text → Bool)

/-- What is documented of `HttpUrl`: it reads the texts that it accepts as the URL Standard does. -/
structure HttpUrlDocumented : Prop where
  parse : ∀ t u, httpUrl t = some u → tables.parse t = some u
  tables : tables.Documented checkNetloc

/-- `WorkerConfig.normalize_endpoint_url`, `none` for a `ValueError`. -/
def normalizeEndpointUrl (value : Text) : Option Text :=
  let stripped := Text.strip value
  if stripped = [] then some stripped
  else
    (urlsplit checkNetloc stripped).map fun parts =>
      let path := rstripSlashes parts.path
      if chatCompletions <:+ path then stripped
      else urlunsplit
        ⟨parts.scheme, parts.netloc, normalizedPath path, parts.query, parts.fragment⟩

/-- The `endpoint_url` of a `WorkerConfig`, if a text is accepted for it. -/
def endpointUrl (value : Text) : Option Url :=
  (normalizeEndpointUrl checkNetloc value).bind httpUrl

/-- `path[: -len("/chat/completions")]`. -/
def openaiBase (path : Text) : Text := path.take (path.length - chatCompletions.length)

/-- `WorkerRegistry._probe_urls`, `none` for a `ValueError`. -/
def probeUrls (endpointUrl : Url) : Option (List Text) :=
  (urlsplit checkNetloc endpointUrl.text).map fun endpoint =>
    let origin := urlunsplit ⟨endpoint.scheme, endpoint.netloc, [], [], []⟩
    let path := rstripSlashes endpoint.path
    let urls :=
      if chatCompletions <:+ path then
        if openaiBase path ≠ [] then
          [urlunsplit ⟨endpoint.scheme, endpoint.netloc, openaiBase path ++ "/models".toList, [], []⟩]
        else []
      else []
    (urls ++ [origin ++ "/health".toList, origin ++ "/v0/health".toList]).eraseDups

/-- An endpoint differs in its path only from the URL that was given, as the URL Standard reads it. -/
def SameUrl (value : Text) (u : Url) : Prop :=
  ∃ given, tables.parse (Text.strip value) = some given ∧ u.scheme = given.scheme ∧
    u.authority = given.authority ∧ u.query.getD [] = given.query.getD [] ∧
    u.fragment.getD [] = given.fragment.getD []

/-- The endpoint has the route of a base, and is otherwise the URL that was given. -/
structure HasBase (value : Text) (u : Url) (base : Text) : Prop where
  path : rstripSlashes u.path = base ++ chatCompletions
  given : SameUrl tables value u

def FirstProbe (u : Url) (path : Text) : Prop :=
  ∃ urls, probeUrls checkNetloc u = some urls ∧
    urls.head? = some (compose u.scheme u.authority path none none)

def Agrees (value : Text) (u : Url) : Prop :=
  ∃ base, HasBase tables value u base ∧ FirstProbe checkNetloc u (base ++ "/models".toList)

end

def givenBase (path : Text) : Text :=
  let path := rstripSlashes path
  if chatCompletions <:+ path then openaiBase path else path

theorem rstripSlashes_append {path : Text} (h : ∀ c ∈ path.getLast?, c ≠ '/') (k : ℕ) :
    rstripSlashes (path ++ List.replicate k '/') = path := by
  unfold rstripSlashes
  induction k with
  | zero =>
    rw [List.replicate_zero, List.append_nil]
    exact rdropWhile_of_last fun c hc => decide_eq_false (h c hc)
  | succ k ih =>
    rw [List.replicate_succ', ← List.append_assoc, List.rdropWhile_concat_pos _ _ _ rfl, ih]

theorem eq_rstripSlashes (path : Text) : ∃ k, path = rstripSlashes path ++ List.replicate k '/' := by
  obtain ⟨slashes, hslashes⟩ : ∃ slashes, slashes = path.rtakeWhile fun c => decide (c = '/') :=
    ⟨_, rfl⟩
  have hall : ∀ c ∈ slashes, c = '/' := by
    intro c hc
    rw [hslashes] at hc
    simpa using List.mem_rtakeWhile_imp hc
  refine ⟨slashes.length, ?_⟩
  rw [← List.eq_replicate_of_mem hall, hslashes]
  exact List.rdropWhile_append_rtakeWhile.symm

theorem rstripSlashes_ne (path : Text) : rstripSlashes path ≠ ['/'] := by
  intro h
  have hlast := List.rdropWhile_last_not (fun c => decide (c = '/')) path
    (by rw [show path.rdropWhile _ = _ from h]; exact List.cons_ne_nil _ _)
  simp [show path.rdropWhile (fun c => decide (c = '/')) = ['/'] from h] at hlast

theorem chatCompletions_last : chatCompletions.getLast? = some 's' := by decide

theorem chatCompletions_ne_nil : chatCompletions ≠ [] := List.cons_ne_nil _ _

theorem route_ne_nil (k : ℕ) : chatCompletions ++ List.replicate k '/' ≠ [] :=
  List.append_ne_nil_of_left_ne_nil chatCompletions_ne_nil _

theorem route_last (k : ℕ) : ∀ c ∈ (chatCompletions ++ List.replicate k '/').getLast?,
    isControlOrSpace c = false := by
  intro c hc
  cases k with
  | zero =>
    rw [List.replicate_zero, List.append_nil, chatCompletions_last] at hc
    obtain rfl : 's' = c := Option.some.inj hc
    rfl
  | succ k =>
    rw [List.replicate_succ', ← List.append_assoc, List.getLast?_concat] at hc
    obtain rfl : '/' = c := Option.some.inj hc
    rfl

theorem openaiBase_append (base : Text) : openaiBase (base ++ chatCompletions) = base := by
  unfold openaiBase
  rw [List.length_append, Nat.add_sub_cancel, List.take_left]

theorem rstripSlashes_route (base : Text) (k : ℕ) :
    rstripSlashes (base ++ chatCompletions ++ List.replicate k '/') = base ++ chatCompletions := by
  refine rstripSlashes_append (fun c hc => ?_) k
  rw [List.getLast?_append_of_ne_nil _ chatCompletions_ne_nil, chatCompletions_last] at hc
  obtain rfl : 's' = c := Option.some.inj hc
  decide

def IsVersion (version : Text) : Prop := version = [] ∨ version = "/v1".toList

theorem normalizedPath_eq {path : Text} (h : path ≠ ['/']) :
    ∃ version, normalizedPath path = path ++ version ++ chatCompletions ∧ IsVersion version := by
  have hv1 : "/v1/chat/completions".toList = "/v1".toList ++ chatCompletions := rfl
  unfold normalizedPath
  split
  · exact ⟨[], by rw [List.append_nil], Or.inl rfl⟩
  · split
    · next hpath =>
      have hnil : path = [] := hpath.resolve_right h
      exact ⟨"/v1".toList, by rw [hnil, hv1]; rfl, Or.inr rfl⟩
    · exact ⟨"/v1".toList, by rw [hv1, List.append_assoc], Or.inr rfl⟩

theorem IsVersion.route_cons {version : Text} (h : IsVersion version) :
    ∃ more, version ++ chatCompletions = '/' :: more := by
  rcases h with rfl | rfl <;> exact ⟨_, rfl⟩

theorem IsVersion.route_chars {version : Text} (h : IsVersion version) :
    ∀ c ∈ version ++ chatCompletions, isTabOrNewline c = false ∧ c ≠ '?' ∧ c ≠ '#' := by
  rcases h with rfl | rfl <;> exact Text.forall_mem_of_all rfl

theorem IsVersion.separates {version : Text} (h : IsVersion version) :
    ∀ c ∈ version.head?, isSeparator c = true := by
  intro c hc
  rcases h with rfl | rfl
  · cases hc
  · rw [← Option.some.inj hc]
    rfl

variable {tables : UrlTables} {checkNetloc : Text → Bool} {value t scheme slashes : Text}
variable {query fragment : Option Text} {parts : SplitResult} {u : Url}

theorem route_of_spelling (hdoc : tables.Documented checkNetloc)
    (h : IsSpelling t parts scheme slashes query fragment) {lead : Text} {k : ℕ}
    (hpath : parts.path = lead ++ chatCompletions ++ List.replicate k '/')
    (hhost : HasHost (parts.netloc ++ lead)) (hu : tables.parse t = some u) :
    (Text.lower scheme = "http".toList ∨ Text.lower scheme = "https".toList) ∧
      u.scheme = Text.lower scheme ∧
      tables.authority (Text.lower scheme) (hostOf (parts.netloc ++ lead)) = some u.authority ∧
      (∃ segments, u.path = pathText segments ++ chatCompletions ++ List.replicate k '/') ∧
      u.query = (cleanQuery query fragment).map (fun q => q.flatMap tables.encodeQuery) ∧
      u.fragment = (fragment.map (List.rdropWhile isControlOrSpace)).map
        fun f => f.flatMap tables.encodeFragment := by
  obtain ⟨body, hclean, hspelled, hbody⟩ := clean_spell h.text h.spelled
  have hchat : IsWord "chat".toList := ⟨List.cons_ne_nil _ _, Text.forall_mem_of_all rfl⟩
  have hcompletions : IsWord "completions".toList :=
    ⟨List.cons_ne_nil _ _, Text.forall_mem_of_all rfl⟩
  have hroute : slashes ++ (parts.netloc ++ parts.path) =
      slashes ++ (parts.netloc ++ lead) ++ (chatCompletions ++ List.replicate k '/') := by
    rw [hpath]
    simp only [List.append_assoc]
  -- The last character of the text before the query is one of the route, so that it is kept.
  have hkept : body = slashes ++ (parts.netloc ++ lead) ++
      (chatCompletions ++ List.replicate k '/') := by
    rw [← hroute]
    refine hbody.elim id fun hdrop => hdrop.trans (rdropWhile_of_last fun c hc => ?_)
    rw [hroute, List.getLast?_append_of_ne_nil _ (route_ne_nil k)] at hc
    exact route_last k c hc
  obtain ⟨hscheme, hus, hauthority, ⟨segments, hup⟩, huq, huf⟩ := parse_words hdoc hchat
    hcompletions (hkept ▸ hclean) (hkept ▸ hspelled) (hhost.append_right slashes) hu
  rw [(hostOf_slashes h.slashes _).1] at hauthority
  exact ⟨hscheme, hus, hauthority, ⟨segments, hup⟩, huq, huf⟩

theorem given_of_spelling (hdoc : tables.Documented checkNetloc)
    (h : IsSpelling t parts scheme slashes query fragment) {front tail authority : Text}
    (hpath : parts.netloc ++ parts.path = front ++ tail)
    (htail : ∀ c ∈ tail.head?, isSeparator c = true) (hhost : HasHost front)
    (hscheme : Text.lower scheme = "http".toList ∨ Text.lower scheme = "https".toList)
    (hauthority : tables.authority (Text.lower scheme) (hostOf front) = some authority) :
    ∃ given, tables.parse t = some given ∧ given.scheme = Text.lower scheme ∧
      given.authority = authority ∧
      given.query = (cleanQuery query fragment).map (fun q => q.flatMap tables.encodeQuery) ∧
      given.fragment = (fragment.map (List.rdropWhile isControlOrSpace)).map
        fun f => f.flatMap tables.encodeFragment := by
  obtain ⟨body, hclean, hspelled, hbody⟩ := clean_spell h.text h.spelled
  have hfront : hostOf (slashes ++ (front ++ tail)) = hostOf front := by
    rw [(hostOf_slashes h.slashes _).1, (hhost.append htail).1]
  have hwhole : HasHost (slashes ++ (front ++ tail)) := (hhost.append_left tail).append_right slashes
  have hread : HasHost body ∧ hostOf body = hostOf front := by
    rw [hpath] at hbody
    rcases hbody with hbody | hbody
    · rw [hbody]
      exact ⟨hwhole, hfront⟩
    · rw [hbody, ← hfront]
      refine hostOf_rdropWhile hwhole ?_
      rw [hfront]
      exact hdoc.authority_last _ _ _ hauthority
  rw [parse_spell hclean hspelled hread.1, if_pos hscheme, hread.2, hauthority]
  exact ⟨_, rfl, rfl, rfl, rfl, rfl⟩

theorem scheme_ne_nil {rest : Text} (hsplit : urlsplit checkNetloc t = some parts)
    (ht : prepare t = scheme ++ ':' :: rest) (halpha : scheme.head?.any Char.isAlpha = true)
    (hall : scheme.all isSchemeChar = true) : parts.scheme ≠ [] := by
  obtain ⟨-, -, -, -, hscheme, -⟩ := text_of_urlsplit hsplit
  rw [ht, splitScheme_spell halpha hall] at hscheme
  rw [hscheme]
  cases scheme with
  | nil => cases halpha
  | cons c scheme => exact List.cons_ne_nil _ _

theorem colon_before_slash {s rest front tail : Text} (hs : '/' ∉ s)
    (h : s ++ ':' :: rest = front ++ '/' :: tail) : ∃ between, front = s ++ ':' :: between := by
  rcases List.append_eq_append_iff.mp h with ⟨between, hfront, hrest⟩ | ⟨between, hscheme, htail⟩
  · cases between with
    | nil => simp at hrest
    | cons d between =>
      obtain rfl : ':' = d := (List.cons.inj hrest).1
      exact ⟨between, hfront⟩
  · cases between with
    | nil => simp at htail
    | cons d between =>
      obtain rfl : '/' = d := (List.cons.inj htail).1
      rw [hscheme] at hs
      simp at hs

theorem scheme_in_front {front rest more tail : Text} (hne : front ≠ [])
    (ht : prepare t = front ++ rest) (hslash : '/' ∉ scheme)
    (hscheme : prepare (front ++ '/' :: more) = scheme ++ ':' :: tail) :
    ∃ between, prepare t = scheme ++ ':' :: between := by
  have hhead : ∀ c ∈ front.head?, isControlOrSpace c = false := by
    intro c hc
    refine prepare_head t c ?_
    rw [ht, List.head?_append_of_ne_nil _ hne]
    exact hc
  have htab : ∀ c ∈ front, isTabOrNewline c = false := fun c hc =>
    (mem_prepare (ht ▸ List.mem_append_left _ hc)).2
  rw [prepare_append hne hhead htab] at hscheme
  obtain ⟨between, hbetween⟩ := colon_before_slash hslash hscheme.symm
  exact ⟨between ++ rest, by rw [ht, hbetween, List.append_assoc]; rfl⟩

theorem scheme_of_put_together {front more : Text} {k : ℕ}
    (hsplit : urlsplit checkNetloc t = some parts)
    (hpath : parts.path = front ++ List.replicate k '/')
    (hu : tables.parse (urlunsplit { parts with path := front ++ '/' :: more }) = some u) :
    parts.scheme ≠ [] := by
  -- A text without a scheme is put together to one without a scheme.
  intro hempty
  obtain ⟨s, rest, hprepare, -, -, halpha, hall⟩ := scheme_of_parse hu
  obtain ⟨slashes, query, fragment, hurl, -, -, -, -, -, -, hslashes⟩ := text_of_urlsplit hsplit
  have hsame : (splitScheme (prepare t)).2 = prepare t := by
    rcases splitScheme_cases (prepare t) with hs | ⟨s', rest', ht, -, halpha', hall'⟩
    · rw [hs]
    · exact absurd hempty (scheme_ne_nil hsplit ht halpha' hall')
  rw [hsame] at hurl
  have hfront : IsRooted parts.path → IsRooted front := by
    rw [hpath]
    exact IsRooted.of_append
  have hrooted : parts.netloc ≠ [] → IsRooted (front ++ '/' :: more) := by
    intro hne
    rcases hslashes with ⟨-, hnil⟩ | ⟨-, hroot⟩
    · exact absurd hnil hne
    · exact (hfront hroot).append more
  obtain ⟨slashes', hslashes', htwo, hjoin⟩ := joinNetloc_eq parts.scheme hrooted
  obtain ⟨marks, htext⟩ : ∃ marks, urlunsplit { parts with path := front ++ '/' :: more } =
      slashes' ++ (parts.netloc ++ (front ++ '/' :: more)) ++ marks := by
    unfold urlunsplit
    simp only [hjoin, if_pos hempty]
    exact ⟨_, rfl⟩
  rw [htext] at hprepare
  have hnot : ∀ x y : Text, prepare ('/' :: x) ≠ s ++ ':' :: y := by
    intro x y h
    rw [prepare_slash h] at halpha
    cases halpha
  cases hcases : slashes' with
  | cons d tail =>
    obtain rfl : d = '/' := hslashes' d (by rw [hcases]; exact List.mem_cons_self)
    rw [hcases] at hprepare
    exact hnot _ _ hprepare
  | nil =>
    have hnil : parts.netloc = [] := by
      by_contra hne
      rw [htwo hne] at hcases
      cases hcases
    rw [hcases, hnil] at hprepare
    rw [hnil, List.nil_append] at hurl
    cases front with
    | nil => exact hnot _ _ hprepare
    | cons c front =>
      rcases hslashes with ⟨rfl, -⟩ | ⟨-, hroot⟩
      · -- The text begins with the same path, so that the colon of the scheme was in it.
        rw [hpath, List.nil_append, List.append_assoc] at hurl
        rw [List.nil_append, List.nil_append, List.append_assoc] at hprepare
        obtain ⟨between, ht⟩ := scheme_in_front (List.cons_ne_nil c front) hurl
          (slash_not_mem hall) hprepare
        exact scheme_ne_nil hsplit ht halpha hall hempty
      · rcases hfront hroot with hempty | hhead
        · cases hempty
        · obtain rfl : c = '/' := Option.some.inj hhead
          exact hnot _ _ hprepare

theorem urlunsplit_path {authority path : Text} (hscheme : scheme ≠ []) (hauthority : authority ≠ [])
    (hpath : IsRooted path) :
    urlunsplit ⟨scheme, authority, path, [], []⟩ = compose scheme authority path none none := by
  obtain ⟨slashes, -, htwo, hjoin⟩ := joinNetloc_eq scheme fun _ : authority ≠ [] => hpath
  rw [urlunsplit_of_scheme _ hscheme]
  show spell scheme (joinNetloc scheme authority path) _ _ = _
  rw [hjoin, htwo hauthority]
  rfl

theorem firstProbe_of_route (hdoc : tables.Documented checkNetloc) (hu : tables.parse t = some u)
    {segments : List Text} {k : ℕ}
    (hpath : u.path = pathText segments ++ chatCompletions ++ List.replicate k '/') :
    FirstProbe checkNetloc u (if pathText segments = [] then "/health".toList
      else pathText segments ++ "/models".toList) := by
  obtain ⟨hscheme, ⟨given, hauthority⟩, -⟩ := UrlTables.parse_eq_some hu
  have hne : u.authority ≠ [] := (hdoc.authority_check _ _ _ hauthority).1
  have hscheme' : u.scheme ≠ [] := by
    rcases hscheme with hs | hs <;> rw [hs] <;> exact List.cons_ne_nil _ _
  have hbase : rstripSlashes u.path = pathText segments ++ chatCompletions := by
    rw [hpath, rstripSlashes_route]
  have horigin : urlunsplit ⟨u.scheme, u.authority, [], [], []⟩ ++ "/health".toList =
      compose u.scheme u.authority "/health".toList none none := by
    rw [urlunsplit_path hscheme' hne (Or.inl rfl)]
    simp [compose, spell, after]
  unfold FirstProbe probeUrls
  rw [urlsplit_text hdoc hu]
  simp only [Option.map_some, hbase, if_pos (List.suffix_append _ _), openaiBase_append]
  refine ⟨_, rfl, ?_⟩
  by_cases hempty : pathText segments = []
  · rw [if_neg (not_not_intro hempty), if_pos hempty, List.nil_append, horigin, List.eraseDups_cons]
    rfl
  · have hrooted : IsRooted (pathText segments ++ "/models".toList) :=
      (pathText_rooted segments).append "models".toList
    rw [if_pos hempty, if_neg hempty, urlunsplit_path hscheme' hne hrooted, List.singleton_append,
      List.eraseDups_cons]
    rfl

theorem normalize_cases {httpUrl : Text → Option Url}
    (hparse : ∀ t u, httpUrl t = some u → tables.parse t = some u)
    (hsplit : urlsplit checkNetloc (Text.strip value) = some parts)
    (hu : endpointUrl httpUrl checkNetloc value = some u) :
    (∃ lead, rstripSlashes parts.path = lead ++ chatCompletions ∧
      tables.parse (Text.strip value) = some u) ∨
    ¬ chatCompletions <:+ rstripSlashes parts.path ∧ tables.parse (urlunsplit
      { parts with path := normalizedPath (rstripSlashes parts.path) }) = some u := by
  unfold endpointUrl normalizeEndpointUrl at hu
  simp only at hu
  split at hu
  · next hnil =>
    rw [hnil, Option.bind_some] at hu
    cases hparse [] u hu
  · rw [hsplit, Option.map_some, Option.bind_some] at hu
    split at hu
    · next hroute =>
      obtain ⟨lead, hlead⟩ := hroute
      exact Or.inl ⟨lead, hlead.symm, hparse _ _ hu⟩
    · next hroute => exact Or.inr ⟨hroute, hparse _ _ hu⟩

theorem givenBase_of_route {path lead : Text} (h : rstripSlashes path = lead ++ chatCompletions) :
    givenBase path = lead := by
  unfold givenBase
  simp only [h, if_pos (List.suffix_append _ _), openaiBase_append]

theorem put_together_route (hdoc : tables.Documented checkNetloc)
    (hsplit : urlsplit checkNetloc (Text.strip value) = some parts) {front version : Text} {k : ℕ}
    (hpath : parts.path = front ++ List.replicate k '/')
    (hversion : IsVersion version) (hhost : HasHost (parts.netloc ++ front))
    (hquery : parts.fragment = [] → '#' ∈ Text.strip value →
      ∀ c ∈ parts.query.getLast?, isControlOrSpace c = false)
    (hu : tables.parse (urlunsplit { parts with path := front ++ version ++ chatCompletions }) =
      some u) :
    (∃ segments, u.path = pathText segments ++ chatCompletions) ∧ SameUrl tables value u := by
  obtain ⟨more, hmore⟩ := hversion.route_cons
  have hnew : front ++ version ++ chatCompletions = front ++ '/' :: more := by
    rw [List.append_assoc, hmore]
  have hscheme := scheme_of_put_together hsplit hpath (hnew ▸ hu)
  obtain ⟨scheme, slashes, query, fragment, hspelling⟩ := spelling_of_urlsplit hsplit hscheme
  have hrooted : parts.netloc ≠ [] → IsRooted (front ++ version ++ chatCompletions) := by
    rw [hnew]
    exact fun hne => (IsRooted.of_append (hpath ▸ hspelling.rooted hne)).append more
  have hchars : ∀ c ∈ front ++ version ++ chatCompletions,
      c ∈ parts.path ∨ isTabOrNewline c = false ∧ c ≠ '?' ∧ c ≠ '#' := by
    intro c hc
    rw [List.append_assoc] at hc
    rcases List.mem_append.mp hc with hc | hc
    · exact Or.inl (hpath ▸ List.mem_append_left _ hc)
    · exact Or.inr (hversion.route_chars c hc)
  obtain ⟨slashes', hspelling'⟩ := hspelling.put_together _ hrooted hchars
  have hslashes : ∀ c ∈ (List.replicate k '/').head?, isSeparator c = true := fun c hc => by
    rw [List.eq_of_mem_replicate (List.mem_of_mem_head? hc)]
    rfl
  obtain ⟨hhttp, hus, hauthority, ⟨segments, hup⟩, huq, huf⟩ := route_of_spelling (k := 0) hdoc
    hspelling' (List.append_nil _).symm (by
      rw [← List.append_assoc]
      exact hhost.append_left version) hu
  simp only [← List.append_assoc, (hhost.append hversion.separates).1, ← hspelling'.scheme]
    at hauthority hhttp hus
  rw [hspelling.scheme] at hauthority hhttp
  obtain ⟨given, hgiven, hgs, hga, hgq, hgf⟩ := given_of_spelling hdoc hspelling
    (by rw [hpath, List.append_assoc]) hslashes hhost hhttp hauthority
  refine ⟨⟨segments, hup.trans (List.append_nil _)⟩, given, hgiven, ?_, hga.symm, ?_, ?_⟩
  · rw [hus, hgs, hspelling.scheme]
  · rw [huq, hgq, getD_map rfl, getD_map rfl, hspelling.query, hspelling.fragment,
      cleanQuery_unlessEmpty fun hf => ?_]
    rw [hspelling.fragment, hspelling.query, hf] at hquery
    refine hquery rfl (mem_prepare ?_).1
    rw [hspelling.text, mem_spell, hf]
    exact Or.inr (Or.inr (Or.inr (Or.inr List.mem_cons_self)))
  · rw [huf, hgf, getD_map rfl, getD_map rfl, getD_map rfl, getD_map rfl, unlessEmpty_getD,
      hspelling.fragment]

/-- The endpoint is the chat route of a base and is otherwise the URL that was given.  Its first
probe is the models route of the same base, unless the base is empty. -/
theorem endpoint_meets_probe {httpUrl : Text → Option Url}
    (hhttp : HttpUrlDocumented httpUrl tables checkNetloc)
    (hsplit : urlsplit checkNetloc (Text.strip value) = some parts)
    (hhost : HasHost (parts.netloc ++ givenBase parts.path))
    -- Only a text that is put together again can lose the end of its query.
    (hquery : ¬ chatCompletions <:+ rstripSlashes parts.path → parts.fragment = [] →
      '#' ∈ Text.strip value → ∀ c ∈ parts.query.getLast?, isControlOrSpace c = false)
    (hu : endpointUrl httpUrl checkNetloc value = some u) :
    ∃ base, HasBase tables value u base ∧ FirstProbe checkNetloc u
      (if base = [] then "/health".toList else base ++ "/models".toList) := by
  have hdoc := hhttp.tables
  obtain ⟨k, hpath⟩ := eq_rstripSlashes parts.path
  rcases normalize_cases hhttp.parse hsplit hu with ⟨lead, hlead, hparse⟩ | ⟨hroute, hparse⟩
  · -- The text is kept as it was given.
    obtain ⟨s, rest, ht, -, -, halpha, hall⟩ := scheme_of_parse hparse
    obtain ⟨scheme, slashes, query, fragment, hspelling⟩ :=
      spelling_of_urlsplit hsplit (scheme_ne_nil hsplit ht halpha hall)
    rw [givenBase_of_route hlead] at hhost
    obtain ⟨-, -, -, ⟨segments, hup⟩, -⟩ :=
      route_of_spelling hdoc hspelling (hlead ▸ hpath) hhost hparse
    refine ⟨pathText segments, ⟨?_, u, hparse, rfl, rfl, rfl, rfl⟩,
      firstProbe_of_route hdoc hparse hup⟩
    rw [hup, rstripSlashes_route]
  · -- The path gets a route, and the text is put together again.
    have hbase : givenBase parts.path = rstripSlashes parts.path := if_neg hroute
    obtain ⟨version, hnormalized, hversion⟩ := normalizedPath_eq (rstripSlashes_ne parts.path)
    rw [hbase] at hhost
    rw [hnormalized] at hparse
    obtain ⟨⟨segments, hup⟩, hgiven⟩ :=
      put_together_route hdoc hsplit hpath hversion hhost (hquery hroute) hparse
    have hslashes : u.path = pathText segments ++ chatCompletions ++ List.replicate 0 '/' :=
      hup.trans (List.append_nil _).symm
    refine ⟨pathText segments, ⟨?_, hgiven⟩, firstProbe_of_route hdoc hparse hslashes⟩
    rw [hslashes, rstripSlashes_route]

namespace Sample

def percent (c : Char) : Text :=
  ['%', (Nat.digitChar (c.toNat / 16 % 16)).toUpper, (Nat.digitChar (c.toNat % 16)).toUpper]

def encode (special : Text) (c : Char) : Text :=
  if 33 ≤ c.toNat ∧ c.toNat ≤ 126 ∧ c ∉ special then [c] else percent c

def isHostChar (c : Char) : Bool := isSchemeChar c || c = ':'

/-- The tables for hosts with names of ASCII letters, and ports that are not the default ones. -/
def urlTables : UrlTables where
  authority := fun _ given =>
    if given ≠ [] ∧ given.all isHostChar then some (Text.lower given) else none
  encodePath := encode "\"#<>?^`\x7b\x7d".toList
  encodeQuery := encode "\"#<>'".toList
  encodeFragment := encode "\"<>`".toList

def bracketsMatch (netloc : Text) : Bool := decide ('[' ∈ netloc ↔ ']' ∈ netloc)

theorem isHostChar_facts {c : Char} (h : isHostChar c = true) : isControlOrSpace c = false ∧
    isControlOrSpace c.toLower = false ∧ endsAuthority c.toLower = false ∧ c.toLower ≠ '[' ∧
      c.toLower ≠ ']' := by
  have hascii : ∀ n < 128, isHostChar (Char.ofNat n) = true →
      isControlOrSpace (Char.ofNat n) = false ∧ isControlOrSpace (Char.ofNat n).toLower = false ∧
        endsAuthority (Char.ofNat n).toLower = false ∧ (Char.ofNat n).toLower ≠ '[' ∧
        (Char.ofNat n).toLower ≠ ']' := by
    decide
  have hlt : c.toNat < 128 := by
    unfold isHostChar at h
    rw [Bool.or_eq_true] at h
    rcases h with h | h
    · exact toNat_lt_of_isSchemeChar h
    · rw [of_decide_eq_true h]
      decide
  have hc := hascii c.toNat hlt
  rw [Char.ofNat_toNat] at hc
  exact hc h

theorem authority_eq_some {scheme given authority : Text}
    (h : urlTables.authority scheme given = some authority) :
    given ≠ [] ∧ authority = Text.lower given ∧ ∀ c ∈ given, isHostChar c = true := by
  simp only [urlTables] at h
  split at h
  · next hgiven => exact ⟨hgiven.1, (Option.some.inj h).symm, List.all_eq_true.mp hgiven.2⟩
  · cases h

theorem encode_chars (special : Text) (c : Char) :
    (encode special c = [c] ∧ isControlOrSpace c = false) ∨
      ∀ d ∈ encode special c, isControlOrSpace d = false ∧ endsAuthority d = false := by
  unfold encode
  split
  · next h =>
    refine Or.inl ⟨rfl, decide_eq_false ?_⟩
    omega
  · have hdigit : ∀ n < 16, isControlOrSpace (Nat.digitChar n).toUpper = false ∧
        endsAuthority (Nat.digitChar n).toUpper = false := by decide
    refine Or.inr fun d hd => ?_
    simp only [percent, List.mem_cons, List.not_mem_nil, or_false] at hd
    rcases hd with rfl | rfl | rfl
    · decide
    · exact hdigit _ (Nat.mod_lt _ (by decide))
    · exact hdigit _ (Nat.mod_lt _ (by decide))

theorem urlTables_documented : urlTables.Documented bracketsMatch where
  authority_last scheme given authority h c hc :=
    (isHostChar_facts ((authority_eq_some h).2.2 c (List.mem_of_mem_getLast? hc))).1
  authority_chars scheme given authority h c hc := by
    obtain ⟨-, rfl, hall⟩ := authority_eq_some h
    obtain ⟨d, hd, rfl⟩ := List.mem_map.mp hc
    obtain ⟨-, hcontrol, hends, -⟩ := isHostChar_facts (hall d hd)
    exact ⟨hcontrol, hends⟩
  authority_check scheme given authority h := by
    obtain ⟨hne, rfl, hall⟩ := authority_eq_some h
    have hbrackets : ∀ c ∈ Text.lower given, c ≠ '[' ∧ c ≠ ']' := by
      intro c hc
      obtain ⟨d, hd, rfl⟩ := List.mem_map.mp hc
      exact (isHostChar_facts (hall d hd)).2.2.2
    refine ⟨fun hnil => hne (List.map_eq_nil_iff.mp hnil), decide_eq_true ?_⟩
    exact iff_of_false (fun h => (hbrackets _ h).1 rfl) fun h => (hbrackets _ h).2 rfl
  path_letter c hc := by
    have hascii : ∀ n < 128, (Char.ofNat n).isAlpha = true →
        urlTables.encodePath (Char.ofNat n) = [Char.ofNat n] := by decide
    have hscheme : isSchemeChar c = true := by simp [isSchemeChar, Char.isAlphanum, hc]
    have h := hascii c.toNat (toNat_lt_of_isSchemeChar hscheme)
    rw [Char.ofNat_toNat] at h
    exact h hc
  path_chars c hc d hd := by
    rcases encode_chars "\"#<>?^`\x7b\x7d".toList c with ⟨hkept, hcontrol⟩ | hencoded
    · obtain rfl : d = c := List.mem_singleton.mp (hkept ▸ hd)
      exact ⟨hcontrol, hc⟩
    · exact hencoded d hd
  query_chars c hc d hd := by
    rcases encode_chars "\"#<>'".toList c with ⟨hkept, hcontrol⟩ | hencoded
    · obtain rfl : d = c := List.mem_singleton.mp (hkept ▸ hd)
      exact ⟨hcontrol, hc⟩
    · obtain ⟨hcontrol, hends⟩ := hencoded d hd
      refine ⟨hcontrol, ?_⟩
      rintro rfl
      cases hends
  fragment_chars c d hd := by
    rcases encode_chars "\"<>`".toList c with ⟨hkept, hcontrol⟩ | hencoded
    · obtain rfl : d = c := List.mem_singleton.mp (hkept ▸ hd)
      exact hcontrol
    · exact (hencoded d hd).1

/-- `HttpUrl` takes texts of a limited length. -/
def httpUrl (t : Text) : Option Url := if t.length ≤ 2083 then urlTables.parse t else none

theorem httpUrl_documented : HttpUrlDocumented httpUrl urlTables bracketsMatch where
  parse t u h := by
    unfold httpUrl at h
    split at h
    · exact h
    · cases h
  tables := urlTables_documented

end Sample

theorem custom_meets_probe : ∃ base,
    HasBase Sample.urlTables "http://bob:8642/custom/?profile=fast".toList
      ⟨"http".toList, "bob:8642".toList, "/custom/v1/chat/completions".toList,
        some "profile=fast".toList, none⟩ base ∧
    FirstProbe Sample.bracketsMatch ⟨"http".toList, "bob:8642".toList,
      "/custom/v1/chat/completions".toList, some "profile=fast".toList, none⟩
      (if base = [] then "/health".toList else base ++ "/models".toList) := by
  have hsplit : urlsplit Sample.bracketsMatch
      (Text.strip "http://bob:8642/custom/?profile=fast".toList) = some
      ⟨"http".toList, "bob:8642".toList, "/custom/".toList, "profile=fast".toList, []⟩ := by
    decide
  exact endpoint_meets_probe Sample.httpUrl_documented hsplit ⟨'b', by decide, rfl⟩
    (fun _ => by decide) (by decide)

/-- The models route of a worker with the bare route is not probed, and two more kinds of endpoint
are read otherwise: without an authority the route itself becomes one, and a query before an empty
fragment loses the spaces at its end. -/
theorem endpoints_disagree : (∃ u,
      endpointUrl Sample.httpUrl Sample.bracketsMatch "https://h/chat/completions".toList = some u ∧
      ¬ Agrees Sample.urlTables Sample.bracketsMatch "https://h/chat/completions".toList u) ∧
    (∃ u, endpointUrl Sample.httpUrl Sample.bracketsMatch "http:///chat/completions".toList = some u ∧
      ¬ Agrees Sample.urlTables Sample.bracketsMatch "http:///chat/completions".toList u) ∧
    ∃ u, endpointUrl Sample.httpUrl Sample.bracketsMatch "http://h?q #".toList = some u ∧
      ¬ Agrees Sample.urlTables Sample.bracketsMatch "http://h?q #".toList u := by
  refine ⟨⟨⟨"https".toList, "h".toList, "/chat/completions".toList, none, none⟩, by decide, ?_⟩,
    ⟨⟨"http".toList, "chat".toList, "/completions".toList, none, none⟩, by decide, ?_⟩,
    ⟨⟨"http".toList, "h".toList, "/v1/chat/completions".toList, some "q".toList, none⟩, by decide,
      ?_⟩⟩
  · rintro ⟨base, ⟨hpath, -⟩, urls, hurls, hfirst⟩
    have hbase : openaiBase (rstripSlashes "/chat/completions".toList) = base := by
      rw [hpath, openaiBase_append]
    have hempty : openaiBase (rstripSlashes "/chat/completions".toList) = [] := by decide
    have hurls' : urls = ["https://h/health".toList, "https://h/v0/health".toList] := by
      have hprobes : probeUrls Sample.bracketsMatch ⟨"https".toList, "h".toList,
          "/chat/completions".toList, none, none⟩ =
            some ["https://h/health".toList, "https://h/v0/health".toList] := by
        decide
      exact Option.some.inj (hurls.symm.trans hprobes)
    rw [hurls', ← hbase, hempty] at hfirst
    exact absurd hfirst (by decide)
  · rintro ⟨base, ⟨hpath, -⟩, -⟩
    have hroute : ¬ chatCompletions <:+ rstripSlashes "/completions".toList := by decide
    exact hroute ⟨base, hpath.symm⟩
  · rintro ⟨base, ⟨-, given, hgiven, -, -, hq, -⟩, -⟩
    have hread : Sample.urlTables.parse (Text.strip "http://h?q #".toList) =
        some ⟨"http".toList, "h".toList, "/".toList, some "q%20".toList, some []⟩ := by
      decide
    obtain rfl := Option.some.inj (hgiven.symm.trans hread)
    exact absurd hq (by decide)

end WorkerBridge
