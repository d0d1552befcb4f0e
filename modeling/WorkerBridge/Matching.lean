import WorkerBridge.Confinement

namespace WorkerBridge

open PosixPath

/-- The matcher accepts a candidate exactly when the stars of the pattern can be
filled so that the candidate begins with the result. -/
theorem matchParts_iff (patternParts candidateParts : List Text) :
    matchParts patternParts candidateParts = true ↔
      ∃ f : ℕ → List Text, Glob.fill starSegment f patternParts <+: candidateParts := by
  unfold matchParts
  rw [Glob.prefixMatch_iff]
  constructor
  · rintro ⟨q, hq, hpre⟩
    obtain ⟨f, rfl⟩ := Glob.expands_iff_fill.mp hq
    exact ⟨f, hpre⟩
  · rintro ⟨f, hpre⟩
    exact ⟨_, Glob.expands_iff_fill.mpr ⟨f, rfl⟩, hpre⟩

theorem matchParts_literal {patternParts candidateParts : List Text}
    (h : starSegment ∉ patternParts) :
    matchParts patternParts candidateParts = decide (patternParts <+: candidateParts) := by
  rw [Bool.eq_iff_iff, decide_eq_true_iff, matchParts, Glob.prefixMatch_iff]
  constructor
  · rintro ⟨q, hq, hpre⟩
    rwa [← Glob.eq_of_expands h hq]
  · exact fun hpre => ⟨_, Glob.expands_self h, hpre⟩

theorem star_not_mem_normpath {path : Text} (ha : absolute path = true)
    (hd : dotdot ∉ segments path) (hs : '*' ∉ path) : '*' ∉ normpath path := by
  intro hm
  rw [normpath_eq ha hd, List.mem_append] at hm
  rcases hm with hm | hm
  · exact absurd (List.eq_of_mem_replicate hm) (by decide)
  · rcases mem_join hm with hslash | ⟨s, hsn, hc⟩
    · exact absurd hslash (by decide)
    · exact hs (mem_of_mem_segment (mem_names.mp hsn).1 hc)

theorem wildcardPrefixMatches_normpath {a c : Text} (ha : absolute a = true)
    (hda : dotdot ∉ segments a) (hs : '*' ∉ a) (hc : absolute c = true)
    (hdc : dotdot ∉ segments c) :
    wildcardPrefixMatches (normpath a) (normpath c) = decide (names a <+: names c) := by
  unfold wildcardPrefixMatches
  rw [segments_normpath ha hda, segments_normpath hc hdc]
  exact matchParts_literal (starSegment_not_mem_names ha hda (star_not_mem_normpath ha hda hs))

theorem lexicallyAllows_literal {a n : Text} (ha : absolute a = true) (hd : dotdot ∉ segments a)
    (hs : '*' ∉ a) : lexicallyAllows n a = true ↔ normpath a = ['/'] ∨ n = normpath a ∨
      (normpath a).rdropWhile (fun c => c == '/') ++ ['/'] <+: n := by
  unfold lexicallyAllows
  rw [if_pos ha, safeNormalize_of ha hd]
  simp only [if_neg (star_not_mem_normpath ha hd hs), Bool.or_eq_true, decide_eq_true_iff, or_assoc]

/-- The text of a path with names: its slashes, and then something else. -/
theorem normpath_eq_cons {path : Text} (ha : absolute path = true) (hd : dotdot ∉ segments path)
    (hn : names path ≠ []) : ∃ c rest, c ≠ '/' ∧
      normpath path = List.replicate (initialSlashes path) '/' ++ c :: rest := by
  have hseg : ∀ p ∈ names path, IsSegment p := fun p hp => isSegment_of_mem (mem_names.mp hp).1
  cases hj : join (names path) with
  | nil =>
    have := segments_join hseg
    rw [hj] at this
    exact absurd this.symm hn
  | cons c rest =>
    refine ⟨c, rest, ?_, by rw [normpath_eq ha hd, hj]⟩
    have hhead := join_head hseg
    rw [hj] at hhead
    exact fun he => hhead (congrArg some he)

theorem initialSlashes_replicate {k : ℕ} {c : Char} (hk : k = 1 ∨ k = 2) (hc : c ≠ '/')
    (rest : Text) : initialSlashes (List.replicate k '/' ++ c :: rest) = k := by
  have hc' : ¬ '/' = c := Ne.symm hc
  rcases hk with rfl | rfl <;> simp [initialSlashes, absolute, List.replicate_succ, hc']

theorem initialSlashes_of_prefix {a c : Text} (ha : absolute a = true) (hda : dotdot ∉ segments a)
    (hn : names a ≠ []) (hc : absolute c = true) (hdc : dotdot ∉ segments c)
    (hpre : normpath a <+: normpath c) : initialSlashes a = initialSlashes c := by
  obtain ⟨rest, hrest⟩ := hpre
  obtain ⟨x, tail, hx, htext⟩ := normpath_eq_cons ha hda hn
  rw [← initialSlashes_normpath hc hdc, ← hrest, htext, List.append_assoc, List.cons_append]
  exact (initialSlashes_replicate (initialSlashes_of_absolute ha) hx _).symm

theorem join_getLast {parts : List Text} (hne : parts ≠ []) (h : ∀ p ∈ parts, IsSegment p) :
    ∃ c, (join parts).getLast? = some c ∧ c ≠ '/' := by
  induction parts with
  | nil => exact absurd rfl hne
  | cons p ps ih =>
    obtain ⟨hp, hslash⟩ := h p List.mem_cons_self
    by_cases hps : ps = []
    · subst hps
      refine ⟨p.getLast hp, ?_, fun he => hslash (he ▸ List.getLast_mem hp)⟩
      simp [join, List.getLast?_eq_some_getLast hp]
    · obtain ⟨c, hc, hcs⟩ := ih hps fun q hq => h q (List.mem_cons_of_mem _ hq)
      refine ⟨c, ?_, hcs⟩
      rw [join_cons_of_ne_nil hps, List.getLast?_append, List.getLast?_cons, hc]
      rfl

theorem rdropWhile_normpath {path : Text} (ha : absolute path = true)
    (hd : dotdot ∉ segments path) (hn : names path ≠ []) :
    (normpath path).rdropWhile (fun c => c == '/') = normpath path := by
  rw [List.rdropWhile_eq_self_iff]
  intro hne hlast
  obtain ⟨c, hc, hcs⟩ := join_getLast hn fun p hp => isSegment_of_mem (mem_names.mp hp).1
  have hget : (normpath path).getLast? = some c := by
    rw [normpath_eq ha hd, List.getLast?_append, hc]
    rfl
  rw [List.getLast?_eq_some_getLast hne] at hget
  rw [Option.some.inj hget] at hlast
  exact hcs (eq_of_beq hlast)

theorem join_append {xs ys : List Text} (hx : xs ≠ []) (hy : ys ≠ []) :
    join (xs ++ ys) = join xs ++ '/' :: join ys := by
  induction xs with
  | nil => exact absurd rfl hx
  | cons x xs ih =>
    by_cases hxs : xs = []
    · subst hxs
      rw [List.singleton_append, join_cons_of_ne_nil hy]
      simp [join]
    · rw [List.cons_append, join_cons_of_ne_nil (List.append_ne_nil_of_left_ne_nil hxs ys),
        join_cons_of_ne_nil hxs, ih hxs, List.append_assoc, List.cons_append]

theorem lexicallyAllows_iff {a c : Text} (ha : absolute a = true) (hda : dotdot ∉ segments a)
    (hs : '*' ∉ a) (hc : absolute c = true) (hdc : dotdot ∉ segments c) :
    lexicallyAllows (normpath c) a = true ↔
      names a <+: names c ∧ (names a = [] ∨ initialSlashes a = initialSlashes c) := by
  -- The text branch compares the names too, and the slashes that are left at the front.
  constructor
  · intro h
    refine ⟨?_, ?_⟩
    · obtain ⟨-, -, q, hq, hpre⟩ := within_of_lexicallyAllows h
      rw [segments_normpath hc hdc] at hpre
      have hstar := starSegment_not_mem_names ha hda (star_not_mem_normpath ha hda hs)
      rwa [← Glob.eq_of_expands hstar hq]
    · by_cases hn : names a = []
      · exact Or.inl hn
      · refine Or.inr ?_
        rcases (lexicallyAllows_literal ha hda hs).mp h with hroot | heq | hpre
        · have hseg := segments_normpath ha hda
          rw [hroot] at hseg
          exact absurd hseg.symm hn
        · exact initialSlashes_of_prefix ha hda hn hc hdc (heq ▸ List.prefix_refl _)
        · rw [rdropWhile_normpath ha hda hn] at hpre
          exact initialSlashes_of_prefix ha hda hn hc hdc
            ((List.prefix_append _ _).trans hpre)
  · rintro ⟨⟨rest, hrest⟩, hslashes⟩
    rw [lexicallyAllows_literal ha hda hs]
    by_cases hn : names a = []
    · -- The root, written with one slash or with two.
      have htext := normpath_eq ha hda
      rw [hn] at htext
      rcases initialSlashes_of_absolute ha with h1 | h2
      · exact Or.inl (by rw [htext, h1]; rfl)
      · refine Or.inr (Or.inr ?_)
        rw [htext, h2, normpath_eq hc hdc]
        rcases initialSlashes_of_absolute hc with hk | hk <;> rw [hk] <;>
          exact List.prefix_append ['/'] _
    · refine Or.inr ?_
      rw [rdropWhile_normpath ha hda hn, normpath_eq hc hdc, normpath_eq ha hda, ← hrest,
        hslashes.resolve_left hn]
      by_cases hr : rest = []
      · subst hr
        exact Or.inl (by rw [List.append_nil])
      · refine Or.inr ⟨join rest, ?_⟩
        rw [join_append hn hr]
        simp

/-- The two branches decide alike exactly when the paths keep the same number of
slashes at the front, or the allowed path is the root, or its names are not
those the candidate begins with. -/
theorem literal_agrees_iff (host : Host) {a c : Text} (ha : absolute a = true)
    (hda : dotdot ∉ segments a) (hs : '*' ∉ a) (hc : absolute c = true)
    (hdc : dotdot ∉ segments c) :
    wildcardPrefixMatches (normpath a) (normpath c) = decide (names a <+: names c) ∧
    (pathIsAllowed host c [a] false = .ok (wildcardPrefixMatches (normpath a) (normpath c)) ↔
      initialSlashes a = initialSlashes c ∨ names a = [] ∨ ¬ names a <+: names c) := by
  have hwild := wildcardPrefixMatches_normpath ha hda hs hc hdc
  refine ⟨hwild, ?_⟩
  rw [pathIsAllowed_lexical hc hdc, hwild, Except.ok.injEq, List.any_cons, List.any_nil,
    Bool.or_false, Bool.eq_iff_iff, decide_eq_true_iff, lexicallyAllows_iff ha hda hs hc hdc]
  tauto

/-- Two spellings of a candidate, and an allowed path with a slash at its end. -/
theorem literal_agrees_iff_spelled :
    pathIsAllowed lexicalHost "/srv/./out//x".toList ["/srv//".toList] false = .ok true ∧
    pathIsAllowed lexicalHost "///srv/out/x/".toList ["/srv//".toList] false = .ok true := by
  refine ⟨?_, ?_⟩
  · exact ((literal_agrees_iff lexicalHost (by decide) (by decide) (by decide) (by decide)
      (by decide)).2.mpr (Or.inl (by decide))).trans (by decide)
  · exact ((literal_agrees_iff lexicalHost (by decide) (by decide) (by decide) (by decide)
      (by decide)).2.mpr (Or.inl (by decide))).trans (by decide)

/-- Two slashes at the front of the candidate and one at that of the allowed path. -/
theorem literal_disagrees :
    pathIsAllowed lexicalHost "//srv/out".toList ["/srv".toList] false = .ok false ∧
    wildcardPrefixMatches (normpath "/srv".toList) (normpath "//srv/out".toList) = true := by
  refine ⟨rfl, ?_⟩
  decide

end WorkerBridge
