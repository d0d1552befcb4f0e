import WorkerBridge.Server
import WorkerBridge.Confinement

namespace WorkerBridge

theorem StrError.not_policy (e : StrError) : e.exc.isWorkingDirectoryError = false := by
  cases e <;> rfl

def PolicyOutcome : Except PyExc Text → Prop
  | .ok _ => True
  | .error exc => exc.isWorkingDirectoryError = true

/-- The entry is compared in its canonical form, from the normal form `n`. -/
def Compared (entry n : Text) : Prop :=
  PosixPath.absolute entry = true ∧ '*' ∉ entry ∧ safeNormalize entry = some n

/-- The entry cannot be resolved, for a reason the code does not expect. -/
def EntryRaises (host : Host) (entry : Text) : Prop :=
  ∃ n message, Compared entry n ∧ host.resolve n = .error (.valueError message)

def EntryAllows (host : Host) (resolved : RealPath) (entry : Text) : Prop :=
  ∃ n root, Compared entry n ∧ host.resolve n = .ok root ∧
    (root.parts = [] ∨ resolved.within root = true)

section Entry

variable {host : Host} {resolved : RealPath} {entry n : Text}

theorem Compared.unique {m : Text} (h : Compared entry n) (h' : Compared entry m) : m = n :=
  Option.some.inj (h'.2.2.symm.trans h.2.2)

theorem Compared.raises_iff (h : Compared entry n) :
    EntryRaises host entry ↔ ∃ message, host.resolve n = .error (.valueError message) := by
  constructor
  · rintro ⟨m, message, hm, hr⟩
    rw [h.unique hm] at hr
    exact ⟨message, hr⟩
  · rintro ⟨message, hr⟩
    exact ⟨n, message, h, hr⟩

theorem Compared.allows_iff (h : Compared entry n) :
    EntryAllows host resolved entry ↔ ∃ root, host.resolve n = .ok root ∧
      (root.parts = [] ∨ resolved.within root = true) := by
  constructor
  · rintro ⟨m, root, hm, hr⟩
    rw [h.unique hm] at hr
    exact ⟨root, hr⟩
  · rintro ⟨root, hr⟩
    exact ⟨n, root, h, hr⟩

theorem canonicallyAllows_compared (h : Compared entry n) (rest : List Text) :
    canonicallyAllows host resolved (entry :: rest) =
      match host.resolve n with
      | .error (.valueError message) => .error (.other "ValueError".toList message)
      | .error _ => canonicallyAllows host resolved rest
      | .ok root =>
        if root.parts = [] ∨ resolved.within root = true then .ok true
        else canonicallyAllows host resolved rest := by
  have hguard : PosixPath.absolute entry = true ∧ '*' ∉ entry := ⟨h.1, h.2.1⟩
  rw [canonicallyAllows, if_pos hguard]
  cases hr : host.resolve n with
  | error e => cases e <;> simp only [h.2.2, hr]
  | ok root => simp only [h.2.2, hr]

theorem canonicallyAllows_skipped (h : ∀ n, ¬ Compared entry n) (rest : List Text) :
    canonicallyAllows host resolved (entry :: rest) = canonicallyAllows host resolved rest := by
  rw [canonicallyAllows]
  split
  · next hguard =>
    cases hn : safeNormalize entry with
    | none => rfl
    | some n => exact absurd ⟨hguard.1, hguard.2, hn⟩ (h n)
  · rfl

theorem canonicallyAllows_cons (host : Host) (resolved : RealPath) (entry : Text)
    (rest : List Text) :
    (EntryRaises host entry ∧ ∃ message, canonicallyAllows host resolved (entry :: rest) =
      .error (.other "ValueError".toList message)) ∨
    (¬ EntryRaises host entry ∧ EntryAllows host resolved entry ∧
      canonicallyAllows host resolved (entry :: rest) = .ok true) ∨
    (¬ EntryRaises host entry ∧ ¬ EntryAllows host resolved entry ∧
      canonicallyAllows host resolved (entry :: rest) = canonicallyAllows host resolved rest) := by
  -- The loop ends at an entry that raises or allows, and goes on at any other.
  by_cases h : ∃ n, Compared entry n
  · obtain ⟨n, h⟩ := h
    rw [h.raises_iff, h.allows_iff, canonicallyAllows_compared h]
    cases host.resolve n with
    | error e =>
      cases e with
      | valueError message => exact Or.inl ⟨⟨message, rfl⟩, message, rfl⟩
      | osError => exact Or.inr (Or.inr ⟨by simp, by simp, rfl⟩)
      | runtimeError => exact Or.inr (Or.inr ⟨by simp, by simp, rfl⟩)
    | ok root =>
      by_cases hin : root.parts = [] ∨ resolved.within root = true
      · exact Or.inr (Or.inl ⟨by simp, ⟨root, rfl, hin⟩, if_pos hin⟩)
      · refine Or.inr (Or.inr ⟨by simp, ?_, if_neg hin⟩)
        rintro ⟨root', he, hin'⟩
        cases he
        exact hin hin'
  · have hnone : ∀ n, ¬ Compared entry n := fun n hn => h ⟨n, hn⟩
    refine Or.inr (Or.inr ⟨?_, ?_, canonicallyAllows_skipped hnone rest⟩)
    · exact fun ⟨n, _, hn, _⟩ => hnone n hn
    · exact fun ⟨n, _, hn, _⟩ => hnone n hn

end Entry

/-- Some entry raises, and none before it allows the candidate. -/
def LoopRaises (host : Host) (resolved : RealPath) (write : List Text) : Prop :=
  ∃ before entry after, write = before ++ entry :: after ∧ EntryRaises host entry ∧
    ∀ earlier ∈ before, ¬ EntryAllows host resolved earlier

theorem loopRaises_cons {host : Host} {resolved : RealPath} {entry : Text} {rest : List Text} :
    LoopRaises host resolved (entry :: rest) ↔
      EntryRaises host entry ∨ (¬ EntryAllows host resolved entry ∧ LoopRaises host resolved rest) := by
  constructor
  · rintro ⟨before, e, after, hsplit, he, hbefore⟩
    cases before with
    | nil =>
      obtain ⟨rfl, -⟩ := List.cons.inj hsplit
      exact Or.inl he
    | cons b before =>
      obtain ⟨rfl, rfl⟩ := List.cons.inj hsplit
      exact Or.inr ⟨hbefore _ List.mem_cons_self, before, e, after, rfl, he,
        fun x hx => hbefore x (List.mem_cons_of_mem _ hx)⟩
  · rintro (he | ⟨hne, before, e, after, rfl, he, hbefore⟩)
    · exact ⟨[], entry, rest, rfl, he, List.forall_mem_nil _⟩
    · exact ⟨entry :: before, e, after, rfl, he, List.forall_mem_cons.mpr ⟨hne, hbefore⟩⟩

theorem canonicallyAllows_cases (host : Host) (resolved : RealPath) (write : List Text) :
    (LoopRaises host resolved write ∧ ∃ message, canonicallyAllows host resolved write =
      .error (.other "ValueError".toList message)) ∨
    (¬ LoopRaises host resolved write ∧ ∃ b, canonicallyAllows host resolved write = .ok b) := by
  induction write with
  | nil =>
    refine Or.inr ⟨?_, false, rfl⟩
    rintro ⟨before, entry, after, hsplit, -⟩
    exact absurd hsplit.symm (List.append_ne_nil_of_right_ne_nil _ (List.cons_ne_nil _ _))
  | cons entry rest ih =>
    rw [loopRaises_cons]
    rcases canonicallyAllows_cons host resolved entry rest with
      ⟨hraise, hout⟩ | ⟨hnraise, hallow, hout⟩ | ⟨hnraise, hnallow, hout⟩
    · exact Or.inl ⟨Or.inl hraise, hout⟩
    · refine Or.inr ⟨?_, true, hout⟩
      rintro (h | ⟨h, -⟩)
      · exact hnraise h
      · exact h hallow
    · rw [hout]
      rcases ih with ⟨hloop, herr⟩ | ⟨hloop, hok⟩
      · exact Or.inl ⟨Or.inr ⟨hnallow, hloop⟩, herr⟩
      · refine Or.inr ⟨?_, hok⟩
        rintro (h | ⟨-, h⟩)
        · exact hnraise h
        · exact hloop h

/-- The value chosen in the frontmatter is no string and has no text. -/
def ValueRaises (host : Host) (prompt : Text) : Prop :=
  ∃ value e, frontmatterValue host prompt = .ok value ∧ value.text = .error e

/-- The resolution of `v`, or of an entry that it is compared with, raises a
`ValueError`. -/
def PathRaises (host : Host) (write : List Text) (v : Text) : Prop :=
  ∃ n, safeNormalize v = some n ∧ '*' ∉ n ∧
    ((∃ message, host.resolve n = .error (.valueError message)) ∨
      ∃ resolved, host.resolve n = .ok resolved ∧ LoopRaises host resolved write)

/-- What the handlers of `resolve_working_directory` do not catch. -/
def Escapes (host : Host) (worker : WorkerConfig) (prompt : Text) : Prop :=
  ValueRaises host prompt ∨
    (worker.filesystem.canonicalize = true ∧ ∃ v, extractWorkingDirectory host prompt = .ok (some v) ∧
      PathRaises host worker.filesystem.write v)

theorem frontmatterValue_policy {host : Host} {prompt : Text} {exc : PyExc}
    (h : frontmatterValue host prompt = .error exc) : exc.isWorkingDirectoryError = true := by
  unfold frontmatterValue at h
  split at h
  · cases h
  · split at h
    · cases h
      rfl
    · split at h
      · split at h
        · cases h
        · cases h
          rfl
      · cases h

theorem extractWorkingDirectory_raises_iff {host : Host} {prompt : Text} {exc : PyExc}
    (h : extractWorkingDirectory host prompt = .error exc) :
    exc.isWorkingDirectoryError = true ↔ ¬ ValueRaises host prompt := by
  -- Only `str` of the value raises something else than an error of the policy.
  unfold extractWorkingDirectory at h
  have hraises : ∀ value, frontmatterValue host prompt = .ok value →
      (ValueRaises host prompt ↔ ∃ e, value.text = .error e) := by
    intro value hvalue
    constructor
    · rintro ⟨v, e, hv, he⟩
      rw [hvalue] at hv
      cases hv
      exact ⟨e, he⟩
    · rintro ⟨e, he⟩
      exact ⟨value, e, hvalue, he⟩
  split at h
  · next e he =>
    cases h
    refine iff_of_true (frontmatterValue_policy he) ?_
    rintro ⟨v, e', hv, -⟩
    rw [he] at hv
    cases hv
  · cases h
  · next s hs =>
    split at h
    · cases h
      refine iff_of_true rfl ?_
      rw [hraises _ hs]
      exact fun ⟨e, he⟩ => by cases he
    · cases h
  · next value hvalue =>
    rw [hraises _ hvalue]
    split at h
    · next text htext =>
      cases h
      rw [htext]
      exact iff_of_true rfl fun ⟨e, he⟩ => by cases he
    · next e he =>
      cases h
      rw [he]
      refine iff_of_false ?_ fun hnot => hnot ⟨e, rfl⟩
      rw [e.not_policy]
      exact Bool.false_ne_true

theorem not_valueRaises_of_ok {host : Host} {prompt : Text} {requested : Option Text}
    (h : extractWorkingDirectory host prompt = .ok requested) : ¬ ValueRaises host prompt := by
  rintro ⟨value, e, hv, he⟩
  unfold extractWorkingDirectory at h
  rw [hv] at h
  cases value with
  | none => cases he
  | str s => cases he
  | dict entries text =>
    simp only [he] at h
    cases h
  | other truthy text =>
    simp only [he] at h
    cases h

theorem pathIsAllowed_canonical_cases (host : Host) (v : Text) (write : List Text) :
    (PathRaises host write v ∧ ∃ message, pathIsAllowed host v write true =
      .error (.other "ValueError".toList message)) ∨
    (¬ PathRaises host write v ∧ ∃ b, pathIsAllowed host v write true = .ok b ∧
      (b = true → ∃ d, normalizeForDispatch host v true = .ok d)) := by
  unfold pathIsAllowed normalizeForDispatch PathRaises
  cases hn : safeNormalize v with
  | none =>
    refine Or.inr ⟨?_, false, rfl, fun h => by cases h⟩
    rintro ⟨n, hn', -⟩
    cases hn'
  | some n =>
    have hsame : ∀ P : Text → Prop, (∃ m, some n = some m ∧ P m) ↔ P n := by
      intro P
      constructor
      · rintro ⟨m, hm, hp⟩
        cases hm
        exact hp
      · exact fun hp => ⟨n, rfl, hp⟩
    rw [hsame]
    simp only [if_true, canonicalPathIsAllowed]
    by_cases hstar : '*' ∈ n
    · refine Or.inr ⟨fun h => h.1 hstar, false, if_pos hstar, fun h => by cases h⟩
    · rw [if_neg hstar]
      cases host.resolve n with
      | error e =>
        cases e with
        | valueError message =>
          exact Or.inl ⟨⟨hstar, Or.inl ⟨message, rfl⟩⟩, message, rfl⟩
        | osError => exact Or.inr ⟨by simp, false, rfl, fun h => by cases h⟩
        | runtimeError => exact Or.inr ⟨by simp, false, rfl, fun h => by cases h⟩
      | ok resolved =>
        rcases canonicallyAllows_cases host resolved write with
          ⟨hloop, hout⟩ | ⟨hloop, b, hout⟩
        · exact Or.inl ⟨⟨hstar, Or.inr ⟨resolved, rfl, hloop⟩⟩, hout⟩
        · refine Or.inr ⟨?_, b, hout, fun _ => ⟨_, rfl⟩⟩
          rintro ⟨-, ⟨message, he⟩ | ⟨resolved', he, hloop'⟩⟩
          · cases he
          · cases he
            exact hloop hloop'

theorem pathIsAllowed_lexical_ok (host : Host) (v : Text) (write : List Text) :
    ∃ b, pathIsAllowed host v write false = .ok b := by
  unfold pathIsAllowed
  split
  · exact ⟨false, rfl⟩
  · exact ⟨_, rfl⟩

theorem normalizeForDispatch_lexical (host : Host) (v : Text) :
    ∃ d, normalizeForDispatch host v false = .ok d := by
  unfold normalizeForDispatch
  split
  · exact ⟨v, rfl⟩
  · exact ⟨_, rfl⟩

theorem policyOutcome_iff (host : Host) (worker : WorkerConfig) (prompt : Text) :
    PolicyOutcome (resolveWorkingDirectory host worker prompt) ↔ ¬ Escapes host worker prompt := by
  have hvalue : ∀ requested, extractWorkingDirectory host prompt = .ok requested →
      (Escapes host worker prompt ↔ worker.filesystem.canonicalize = true ∧
        ∃ v, requested = some v ∧ PathRaises host worker.filesystem.write v) := by
    intro requested h
    unfold Escapes
    rw [h, or_iff_right (not_valueRaises_of_ok h)]
    simp only [Except.ok.injEq]
  unfold resolveWorkingDirectory
  cases hextract : extractWorkingDirectory host prompt with
  | error exc =>
    have hpath : Escapes host worker prompt ↔ ValueRaises host prompt := by
      refine or_iff_left ?_
      rintro ⟨-, v, hv, -⟩
      rw [hextract] at hv
      cases hv
    rw [hpath]
    exact extractWorkingDirectory_raises_iff hextract
  | ok requested =>
    rw [hvalue requested hextract]
    cases requested with
    | none => exact iff_of_true rfl fun ⟨_, v, hv, _⟩ => by cases hv
    | some v =>
      dsimp only
      cases hcanonical : worker.filesystem.canonicalize with
      | false =>
        -- Without resolution nothing can fail.
        refine iff_of_true ?_ fun h => by cases h.1
        obtain ⟨b, hb⟩ := pathIsAllowed_lexical_ok host v worker.filesystem.write
        obtain ⟨d, hd⟩ := normalizeForDispatch_lexical host v
        rw [hb]
        cases b with
        | false => rfl
        | true =>
          dsimp only
          rw [hd]
          trivial
      | true =>
        rcases pathIsAllowed_canonical_cases host v worker.filesystem.write with
          ⟨hraises, message, hout⟩ | ⟨hnot, b, hout, hsend⟩
        · rw [hout]
          exact iff_of_false Bool.false_ne_true fun h => h ⟨rfl, v, rfl, hraises⟩
        · rw [hout]
          refine iff_of_true ?_ fun ⟨_, w, hw, hraises⟩ => hnot (Option.some.inj hw ▸ hraises)
          cases b with
          | false => rfl
          | true =>
            obtain ⟨d, hd⟩ := hsend rfl
            dsimp only
            rw [hd]
            trivial

theorem callFailure_http_iff (exc : PyExc) :
    Front.http.callFailure (.python exc) = .error (.http 400 exc.str none) ↔
      exc.isWorkingDirectoryError = true := by
  cases exc with
  | missingWorkingDirectory => exact iff_of_true rfl rfl
  | invalidWorkingDirectory path allowedPaths => exact iff_of_true rfl rfl
  | _ => exact iff_of_false (fun h => by cases h) Bool.false_ne_true

/-- `resolve_working_directory` returns a directory or raises an error of the
policy, which is answered with status 400, unless `str` of the value or the
resolution of a path raises what no handler names. -/
theorem policy_failures_iff (host : Host) (worker : WorkerConfig) (prompt : Text) :
    (PolicyOutcome (resolveWorkingDirectory host worker prompt) ↔
      ¬ Escapes host worker prompt) ∧
    ∀ exc, resolveWorkingDirectory host worker prompt = .error exc →
      (Front.http.callFailure (.python exc) = .error (.http 400 exc.str none) ↔
        ¬ Escapes host worker prompt) := by
  have hiff := policyOutcome_iff host worker prompt
  refine ⟨hiff, ?_⟩
  intro exc hexc
  rw [hexc] at hiff
  exact (callFailure_http_iff exc).trans hiff

namespace Sample

def nul : Char := '\x00'

/-- A host on which a path with a NUL cannot be resolved, and the block
`working_directory: "/srv\0"` loads. -/
def nulHost : Host where
  safeLoad _ := some (.dict [(.str "working_directory".toList, .str ("/srv".toList ++ [nul]))]
    (.ok []))
  resolve path :=
    if nul ∈ path then .error (.valueError "embedded null byte".toList)
    else .ok ⟨[], List.forall_mem_nil _, List.not_mem_nil, List.not_mem_nil⟩

def canonicalWorker : WorkerConfig where
  workerId := "w"
  allowedModes := [.async]
  timeoutLimits := ⟨30, 300⟩
  filesystem := ⟨[], ["/srv".toList], true⟩
  maxConcurrentTasks := 1
  maxConcurrentTasks_pos := oneSlot

end Sample

/-- A NUL in the chosen path escapes in canonical mode. -/
theorem nul_escapes :
    (∀ path message, Sample.nulHost.resolve path = .error (.valueError message) →
      Sample.nul ∈ path) ∧
    ¬ PolicyOutcome (resolveWorkingDirectory Sample.nulHost Sample.canonicalWorker
      "---\nworking_directory: \"/srv\\0\"\n---\nbuild".toList) := by
  refine ⟨?_, ?_⟩
  · intro path message h
    unfold Sample.nulHost at h
    dsimp only at h
    split at h
    · next hmem => exact hmem
    · cases h
  · have hout : resolveWorkingDirectory Sample.nulHost Sample.canonicalWorker
        "---\nworking_directory: \"/srv\\0\"\n---\nbuild".toList =
        .error (.other "ValueError".toList "embedded null byte".toList) := rfl
    rw [hout]
    exact Bool.false_ne_true

end WorkerBridge
