import WorkerBridge.Permissions

namespace WorkerBridge

open PosixPath

theorem safeNormalize_eq_some {path n : Text} (h : safeNormalize path = some n) :
    absolute path = true ∧ dotdot ∉ segments path ∧ n = normpath path := by
  unfold safeNormalize at h
  split at h
  · next ha =>
    split at h
    · cases h
    · next hd => exact ⟨ha, hd, (Option.some.inj h).symm⟩
  · cases h

theorem safeNormalize_of {path : Text} (ha : absolute path = true) (hd : dotdot ∉ segments path) :
    safeNormalize path = some (normpath path) := by
  rw [safeNormalize, if_pos ha, if_neg hd]

theorem safeNormalize_normpath {path : Text} (ha : absolute path = true)
    (hd : dotdot ∉ segments path) : safeNormalize (normpath path) = some (normpath path) := by
  rw [safeNormalize_of (absolute_normpath ha hd) (dotdot_not_mem_normpath ha hd), normpath_idem ha hd]

/-- The entry `a`, with its stars expanded, names a directory at or above `d`. -/
def LexicallyWithin (a d : Text) : Prop :=
  absolute a = true ∧ dotdot ∉ segments a ∧
    ∃ q, Glob.Expands starSegment (names a) q ∧ q <+: segments d

theorem starSegment_not_mem_names {path : Text} (ha : absolute path = true)
    (hd : dotdot ∉ segments path) (hs : '*' ∉ normpath path) : starSegment ∉ names path := by
  intro hm
  exact hs (mem_normpath ha hd ⟨starSegment, hm, List.mem_singleton_self _⟩)

theorem within_of_lexicallyAllows {c a : Text} (h : lexicallyAllows c a = true) :
    LexicallyWithin a c := by
  unfold lexicallyAllows at h
  split at h
  · next ha =>
    split at h
    · cases h
    · next n hn =>
      obtain ⟨-, hd, rfl⟩ := safeNormalize_eq_some hn
      refine ⟨ha, hd, ?_⟩
      have hseg := segments_normpath ha hd
      split at h
      · have hm := (Glob.prefixMatch_iff _ _).mp h
        rwa [hseg] at hm
      · next hstar =>
        refine ⟨names a, Glob.expands_self (starSegment_not_mem_names ha hd hstar), ?_⟩
        rw [← hseg]
        simp only [Bool.or_eq_true, decide_eq_true_eq] at h
        rcases h with (hroot | heq) | hpre
        · rw [hroot]
          exact List.nil_prefix
        · rw [heq]
        · exact segments_prefix hpre
  · cases h

/-- What is promised of the directory `d` sent for the value `v` when paths are
compared as text. -/
structure LexicallyConfined (host : Host) (write : List Text) (v d : Text) : Prop where
  absolute : PosixPath.absolute d = true
  dot_not_mem : dot ∉ segments d
  dotdot_not_mem : dotdot ∉ segments d
  segments_eq : segments d = names v
  within : ∃ a ∈ write, LexicallyWithin a d
  allowed : pathIsAllowed host d write false = .ok true
  dispatched : normalizeForDispatch host d false = .ok d

theorem pathIsAllowed_lexical {host : Host} {v : Text} {write : List Text}
    (ha : absolute v = true) (hd : dotdot ∉ segments v) :
    pathIsAllowed host v write false = .ok (write.any (lexicallyAllows (normpath v))) := by
  simp only [pathIsAllowed, safeNormalize_of ha hd, Bool.false_eq_true, if_false]

theorem lexicallyConfined {host : Host} {v : Text} {write : List Text} (ha : absolute v = true)
    (hd : dotdot ∉ segments v) (hok : pathIsAllowed host v write false = .ok true) :
    LexicallyConfined host write v (normpath v) := by
  have hseg := segments_normpath ha hd
  rw [pathIsAllowed_lexical ha hd] at hok
  have hany : write.any (lexicallyAllows (normpath v)) = true := Except.ok.inj hok
  refine ⟨absolute_normpath ha hd, ?_, dotdot_not_mem_normpath ha hd, hseg, ?_, ?_, ?_⟩
  · rw [hseg]
    exact fun hm => (mem_names.mp hm).2 rfl
  · obtain ⟨a, hmem, hallow⟩ := List.any_eq_true.mp hany
    exact ⟨a, hmem, within_of_lexicallyAllows hallow⟩
  · rw [pathIsAllowed_lexical (absolute_normpath ha hd) (dotdot_not_mem_normpath ha hd),
      normpath_idem ha hd, hany]
  · simp only [normalizeForDispatch, safeNormalize_normpath ha hd, Bool.false_eq_true, if_false,
      normpath_idem ha hd]

/-- The entry `a` has no star and resolves to `r` or to an ancestor of it. -/
def CanonicallyWithin (host : Host) (a : Text) (r : RealPath) : Prop :=
  absolute a = true ∧ '*' ∉ a ∧ ∃ ra, host.resolve (normpath a) = .ok ra ∧ ra.parts <+: r.parts

/-- What is promised of the directory sent for `v` when paths are resolved. -/
structure CanonicallyConfined (host : Host) (write : List Text) (v d : Text) : Prop where
  star_not_mem : '*' ∉ v
  within : ∃ r, host.resolve (normpath v) = .ok r ∧ d = r.str ∧
    ∃ a ∈ write, CanonicallyWithin host a r

theorem exists_of_canonicallyAllows {host : Host} {r : RealPath} {write : List Text}
    (h : canonicallyAllows host r write = .ok true) : ∃ a ∈ write, CanonicallyWithin host a r := by
  induction write with
  | nil => cases h
  | cons a rest ih =>
    have hrest : canonicallyAllows host r rest = .ok true →
        ∃ b ∈ a :: rest, CanonicallyWithin host b r := by
      intro h'
      obtain ⟨b, hb, hp⟩ := ih h'
      exact ⟨b, List.mem_cons_of_mem _ hb, hp⟩
    unfold canonicallyAllows at h
    split at h
    · next hguard =>
      split at h
      · exact hrest h
      · next n hn =>
        obtain ⟨-, -, rfl⟩ := safeNormalize_eq_some hn
        split at h
        · cases h
        · exact hrest h
        · next ra hra =>
          split at h
          · next hin =>
            refine ⟨a, List.mem_cons_self, hguard.1, hguard.2, ra, hra, ?_⟩
            rcases hin with hroot | hin
            · rw [hroot]
              exact List.nil_prefix
            · exact of_decide_eq_true hin
          · exact hrest h
    · exact hrest h

theorem canonicallyConfined {host : Host} {v d : Text} {write : List Text}
    (ha : absolute v = true) (hd : dotdot ∉ segments v)
    (hok : pathIsAllowed host v write true = .ok true)
    (hsend : normalizeForDispatch host v true = .ok d) : CanonicallyConfined host write v d := by
  simp only [pathIsAllowed, safeNormalize_of ha hd, if_true, canonicalPathIsAllowed] at hok
  simp only [normalizeForDispatch, safeNormalize_of ha hd, if_true] at hsend
  split at hok
  · cases hok
  · next hstar =>
    split at hok
    · cases hok
    · cases hok
    · next r hr =>
      rw [hr] at hsend
      refine ⟨fun hm => hstar ?_, r, hr, (Except.ok.inj hsend).symm, exists_of_canonicallyAllows hok⟩
      obtain ⟨s, hs, hc⟩ := exists_segment_of_mem hm (by decide)
      refine mem_normpath ha hd ⟨s, mem_names.mpr ⟨hs, ?_⟩, hc⟩
      rintro rfl
      exact absurd hc (by decide)

theorem extractWorkingDirectory_eq_some {host : Host} {prompt v : Text}
    (h : extractWorkingDirectory host prompt = .ok (some v)) :
    ∃ s, frontmatterValue host prompt = .ok (.str s) ∧ v = Text.strip s := by
  unfold extractWorkingDirectory at h
  split at h
  · cases h
  · cases h
  · next s hs =>
    split at h
    · cases h
    · exact ⟨s, hs, (Option.some.inj (Except.ok.inj h)).symm⟩
  · split at h <;> cases h

theorem resolveWorkingDirectory_eq_ok {host : Host} {worker : WorkerConfig} {prompt d : Text}
    (h : resolveWorkingDirectory host worker prompt = .ok d) :
    ∃ v, extractWorkingDirectory host prompt = .ok (some v) ∧
      pathIsAllowed host v worker.filesystem.write worker.filesystem.canonicalize = .ok true ∧
      normalizeForDispatch host v worker.filesystem.canonicalize = .ok d := by
  unfold resolveWorkingDirectory at h
  split at h
  · cases h
  · cases h
  · next v hv =>
    refine ⟨v, hv, ?_⟩
    dsimp only at h
    split at h
    · cases h
    · cases h
    · next hok =>
      split at h
      · next hd =>
        cases h
        exact ⟨hok, hd⟩
      · cases h
      · cases h

theorem safeNormalize_of_pathIsAllowed {host : Host} {v : Text} {write : List Text}
    {canonicalize : Bool} (h : pathIsAllowed host v write canonicalize = .ok true) :
    absolute v = true ∧ dotdot ∉ segments v := by
  unfold pathIsAllowed at h
  split at h
  · cases h
  · next n hn =>
    obtain ⟨ha, hd, -⟩ := safeNormalize_eq_some hn
    exact ⟨ha, hd⟩

theorem not_allowed_nil {host : Host} {v : Text} {canonicalize : Bool} :
    pathIsAllowed host v [] canonicalize ≠ .ok true := by
  unfold pathIsAllowed canonicalPathIsAllowed
  split
  · simp
  · split
    · split
      · simp
      · split <;> simp [canonicallyAllows]
    · simp

/-- Whatever the host does, a directory that is returned comes from the
frontmatter and lies under the worker's write policy; with an empty policy none
is returned. -/
theorem workingDirectory_confined (host : Host) (worker : WorkerConfig) (prompt d : Text)
    (h : resolveWorkingDirectory host worker prompt = .ok d) :
    (∃ s v, frontmatterValue host prompt = .ok (.str s) ∧ v = Text.strip s ∧
      absolute v = true ∧ dotdot ∉ segments v ∧
      (worker.filesystem.canonicalize = false →
        LexicallyConfined host worker.filesystem.write v d) ∧
      (worker.filesystem.canonicalize = true →
        CanonicallyConfined host worker.filesystem.write v d)) ∧
    worker.filesystem.write ≠ [] := by
  obtain ⟨v, hv, hok, hsend⟩ := resolveWorkingDirectory_eq_ok h
  obtain ⟨s, hs, hstrip⟩ := extractWorkingDirectory_eq_some hv
  obtain ⟨ha, hd⟩ := safeNormalize_of_pathIsAllowed hok
  refine ⟨⟨s, v, hs, hstrip, ha, hd, ?_, ?_⟩, fun hnil => not_allowed_nil (hnil ▸ hok)⟩
  · intro hc
    rw [hc] at hok hsend
    have hdn : d = normpath v := by
      simp only [normalizeForDispatch, safeNormalize_of ha hd, Bool.false_eq_true, if_false,
        normpath_idem ha hd] at hsend
      exact (Except.ok.inj hsend).symm
    rw [hdn]
    exact lexicallyConfined ha hd hok
  · intro hc
    rw [hc] at hok hsend
    exact canonicallyConfined ha hd hok hsend

/-- A host on which the one block of the example below loads and no path resolves. -/
def lexicalHost : Host where
  safeLoad body :=
    if body = "working_directory: '/srv//a/./out '".toList then
      some (.dict [(.str "working_directory".toList, .str "/srv//a/./out ".toList)]
        (.ok "\x7b'working_directory': '/srv//a/./out '\x7d".toList))
    else none
  resolve _ := .error .osError

def lexicalWorker : WorkerConfig where
  workerId := "bob"
  allowedModes := [.sync, .async]
  timeoutLimits := ⟨30, 300⟩
  filesystem := ⟨[], ["/srv/*/out/".toList], false⟩
  maxConcurrentTasks := 2
  maxConcurrentTasks_pos := by decide

theorem workingDirectory_confined_lexical :
    LexicallyConfined lexicalHost lexicalWorker.filesystem.write "/srv//a/./out".toList
      "/srv/a/out".toList := by
  obtain ⟨⟨s, v, hs, rfl, -, -, hlex, -⟩, -⟩ := workingDirectory_confined lexicalHost lexicalWorker
    "---\nworking_directory: '/srv//a/./out '\n---\nrun it".toList "/srv/a/out".toList rfl
  have hval : frontmatterValue lexicalHost
      "---\nworking_directory: '/srv//a/./out '\n---\nrun it".toList =
      .ok (.str "/srv//a/./out ".toList) := rfl
  rw [hval] at hs
  cases hs
  exact hlex rfl

end WorkerBridge
