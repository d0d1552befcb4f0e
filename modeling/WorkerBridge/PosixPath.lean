import WorkerBridge.Text

namespace PosixPath

def dot : Text := ['.']
def dotdot : Text := ['.', '.']

/-- `path.startswith("/")`. -/
def absolute (path : Text) : Bool := path.head? == some '/'

/-- The non-empty parts of `path.split("/")`. -/
def segments (path : Text) : List Text := (path.splitOn '/').filter fun s => decide (s ≠ [])

/-- The segments that name something: those other than `.`. -/
def names (path : Text) : List Text := (segments path).filter fun s => decide (s ≠ dot)

/-- `"/".join(parts)`. -/
def join (parts : List Text) : Text := ['/'].intercalate parts

/-- POSIX allows one or two initial slashes, but treats three or more as one. -/
def initialSlashes (path : Text) : ℕ :=
  if absolute path then
    if ['/', '/'].isPrefixOf path && !(List.isPrefixOf ['/', '/', '/'] path) then 2 else 1
  else 0

def normStep (rooted : Bool) (comps : List Text) (comp : Text) : List Text :=
  if comp = [] ∨ comp = dot then comps
  else if comp ≠ dotdot ∨ (rooted = false ∧ comps = []) ∨ comps.getLast? = some dotdot then
    comps ++ [comp]
  else comps.dropLast

def normpath (path : Text) : Text :=
  if path = [] then dot
  else
    let slashes := initialSlashes path
    let comps := (path.splitOn '/').foldl (normStep (slashes != 0)) []
    let joined := List.replicate slashes '/' ++ join comps
    if joined = [] then dot else joined

def IsSegment (s : Text) : Prop := s ≠ [] ∧ '/' ∉ s

@[simp] theorem segments_nil : segments [] = [] := rfl

theorem segments_append_slash (x y : Text) : segments (x ++ '/' :: y) = segments x ++ segments y := by
  rw [segments, List.splitOn_append_cons_self, List.filter_append]
  rfl

theorem segments_slash (y : Text) : segments ('/' :: y) = segments y :=
  segments_append_slash [] y

theorem segments_replicate (k : ℕ) (y : Text) :
    segments (List.replicate k '/' ++ y) = segments y := by
  induction k with
  | zero => rfl
  | succ k ih =>
    rw [List.replicate_succ, List.cons_append, segments_slash]
    exact ih

theorem segments_join {parts : List Text} (h : ∀ p ∈ parts, IsSegment p) :
    segments (join parts) = parts := by
  by_cases hne : parts = []
  · subst hne
    rfl
  · rw [segments, join, List.splitOn_intercalate '/' (fun p hp => (h p hp).2) hne]
    exact List.filter_eq_self.mpr fun p hp => by simpa using (h p hp).1

theorem not_mem_of_mem_splitOn {path s : Text} (h : s ∈ path.splitOn '/') : '/' ∉ s := by
  induction path generalizing s with
  | nil =>
    simp only [List.splitOn_nil, List.mem_singleton] at h
    simp [h]
  | cons c path ih =>
    rw [List.splitOn_cons_eq_if_modifyHead] at h
    by_cases hc : c = '/'
    · simp only [hc, BEq.rfl, if_true, List.mem_cons] at h
      rcases h with rfl | h
      · simp
      · exact ih h
    · simp only [beq_iff_eq, hc, if_false] at h
      cases hs : path.splitOn '/' with
      | nil => exact absurd hs (List.splitOn_ne_nil _ _)
      | cons t ts =>
        rw [hs, List.modifyHead_cons, List.mem_cons] at h
        rcases h with rfl | h
        · have ht := ih (hs ▸ List.mem_cons_self)
          simp only [List.mem_cons, not_or]
          exact ⟨fun he => hc he.symm, ht⟩
        · exact ih (hs ▸ List.mem_cons_of_mem _ h)

theorem isSegment_of_mem {path s : Text} (h : s ∈ segments path) : IsSegment s := by
  obtain ⟨hm, hne⟩ := List.mem_filter.mp h
  exact ⟨by simpa using hne, not_mem_of_mem_splitOn hm⟩

theorem mem_names {path s : Text} : s ∈ names path ↔ s ∈ segments path ∧ s ≠ dot := by
  simp [names]

theorem segments_rdropWhile (path : Text) :
    segments (path.rdropWhile fun c => c == '/') = segments path := by
  induction path using List.reverseRecOn with
  | nil => rfl
  | append_singleton path c ih =>
    rw [List.rdropWhile_concat]
    split
    · next hc =>
      rw [ih, eq_of_beq hc, segments_append_slash, segments_nil, List.append_nil]
    · rfl

theorem segments_prefix {a c : Text} (h : a.rdropWhile (fun c => c == '/') ++ ['/'] <+: c) :
    segments a <+: segments c := by
  obtain ⟨rest, rfl⟩ := h
  rw [List.append_assoc, List.singleton_append, segments_append_slash, segments_rdropWhile]
  exact List.prefix_append _ _

theorem join_splitOn (path : Text) : join (path.splitOn '/') = path :=
  List.intercalate_splitOn '/'

theorem join_cons_of_ne_nil {p : Text} {ps : List Text} (h : ps ≠ []) :
    join (p :: ps) = p ++ '/' :: join ps := by
  rw [join, List.intercalate_cons_of_ne_nil h, List.append_assoc]
  rfl

theorem mem_join {parts : List Text} {c : Char} (h : c ∈ join parts) :
    c = '/' ∨ ∃ s ∈ parts, c ∈ s := by
  induction parts with
  | nil => cases h
  | cons p ps ih =>
    by_cases hps : ps = []
    · subst hps
      exact Or.inr ⟨p, List.mem_cons_self, by simpa [join] using h⟩
    · rw [join_cons_of_ne_nil hps, List.mem_append, List.mem_cons] at h
      rcases h with h | h | h
      · exact Or.inr ⟨p, List.mem_cons_self, h⟩
      · exact Or.inl h
      · rcases ih h with hc | ⟨s, hs, hcs⟩
        · exact Or.inl hc
        · exact Or.inr ⟨s, List.mem_cons_of_mem _ hs, hcs⟩

theorem mem_join_of_mem {parts : List Text} {s : Text} {c : Char} (hs : s ∈ parts) (hc : c ∈ s) :
    c ∈ join parts := by
  induction parts with
  | nil => cases hs
  | cons p ps ih =>
    by_cases hps : ps = []
    · subst hps
      rw [List.mem_singleton] at hs
      subst hs
      simpa [join] using hc
    · rw [join_cons_of_ne_nil hps, List.mem_append]
      rcases List.mem_cons.mp hs with rfl | hs
      · exact Or.inl hc
      · exact Or.inr (List.mem_cons_of_mem _ (ih hs))

theorem foldl_normStep {rooted : Bool} {comps parts : List Text} (h : dotdot ∉ parts) :
    parts.foldl (normStep rooted) comps =
      comps ++ (parts.filter fun s => decide (s ≠ [])).filter fun s => decide (s ≠ dot) := by
  induction parts generalizing comps with
  | nil => simp
  | cons p parts ih =>
    have hp : p ≠ dotdot := fun he => h (he ▸ List.mem_cons_self)
    have hrest : dotdot ∉ parts := fun hm => h (List.mem_cons_of_mem _ hm)
    rw [List.foldl_cons, ih hrest, normStep]
    by_cases hnil : p = []
    · simp [hnil]
    · by_cases hdot : p = dot
      · simp [hdot, dot]
      · simp [hnil, hdot, hp]

theorem absolute_ne_nil {path : Text} (h : absolute path = true) : path ≠ [] := by
  rintro rfl
  simp [absolute] at h

theorem initialSlashes_of_absolute {path : Text} (h : absolute path = true) :
    initialSlashes path = 1 ∨ initialSlashes path = 2 := by
  rw [initialSlashes, if_pos h]
  split
  · exact Or.inr rfl
  · exact Or.inl rfl

theorem dotdot_not_mem_splitOn {path : Text} (h : dotdot ∉ segments path) :
    dotdot ∉ path.splitOn '/' :=
  fun hm => h (List.mem_filter.mpr ⟨hm, by decide⟩)

theorem normpath_eq {path : Text} (ha : absolute path = true) (hd : dotdot ∉ segments path) :
    normpath path = List.replicate (initialSlashes path) '/' ++ join (names path) := by
  rw [normpath, if_neg (absolute_ne_nil ha)]
  simp only [foldl_normStep (dotdot_not_mem_splitOn hd), List.nil_append]
  rw [if_neg]
  · rfl
  · rcases initialSlashes_of_absolute ha with h | h <;> simp [h]

theorem segments_normpath {path : Text} (ha : absolute path = true) (hd : dotdot ∉ segments path) :
    segments (normpath path) = names path := by
  rw [normpath_eq ha hd, segments_replicate]
  exact segments_join fun p hp => isSegment_of_mem (mem_names.mp hp).1

theorem absolute_normpath {path : Text} (ha : absolute path = true)
    (hd : dotdot ∉ segments path) : absolute (normpath path) = true := by
  rw [normpath_eq ha hd]
  rcases initialSlashes_of_absolute ha with h | h <;> simp [h, absolute, List.replicate_succ]

theorem dotdot_not_mem_normpath {path : Text} (ha : absolute path = true)
    (hd : dotdot ∉ segments path) : dotdot ∉ segments (normpath path) := by
  rw [segments_normpath ha hd]
  exact fun hm => hd (mem_names.mp hm).1

theorem names_normpath {path : Text} (ha : absolute path = true) (hd : dotdot ∉ segments path) :
    names (normpath path) = names path := by
  rw [names, segments_normpath ha hd, names, List.filter_filter]
  simp

theorem join_head {parts : List Text} (h : ∀ p ∈ parts, IsSegment p) :
    (join parts).head? ≠ some '/' := by
  cases parts with
  | nil => simp [join]
  | cons p ps =>
    obtain ⟨hne, hslash⟩ := h p List.mem_cons_self
    obtain ⟨c, p, rfl⟩ := List.exists_cons_of_ne_nil hne
    have hc : c ≠ '/' := fun he => hslash (he ▸ List.mem_cons_self)
    cases ps with
    | nil => simpa [join] using hc
    | cons q qs => simpa [join, List.intercalate_cons_cons] using hc

theorem initialSlashes_normpath {path : Text} (ha : absolute path = true)
    (hd : dotdot ∉ segments path) : initialSlashes (normpath path) = initialSlashes path := by
  have hj : (join (names path)).head? ≠ some '/' :=
    join_head fun p hp => isSegment_of_mem (mem_names.mp hp).1
  rw [normpath_eq ha hd]
  cases hs : join (names path) with
  | nil => rcases initialSlashes_of_absolute ha with h | h <;> rw [h] <;> rfl
  | cons c rest =>
    have hc : c ≠ '/' := by simpa [hs] using hj
    have hc' : ¬ '/' = c := fun he => hc he.symm
    rcases initialSlashes_of_absolute ha with h | h <;> rw [h] <;>
      simp [initialSlashes, absolute, List.replicate_succ, hc']

theorem normpath_idem {path : Text} (ha : absolute path = true) (hd : dotdot ∉ segments path) :
    normpath (normpath path) = normpath path := by
  rw [normpath_eq (absolute_normpath ha hd) (dotdot_not_mem_normpath ha hd),
    initialSlashes_normpath ha hd, names_normpath ha hd, normpath_eq ha hd]

theorem mem_normpath {path : Text} {c : Char} (ha : absolute path = true)
    (hd : dotdot ∉ segments path) (hc : ∃ s ∈ names path, c ∈ s) : c ∈ normpath path := by
  obtain ⟨s, hs, hcs⟩ := hc
  rw [normpath_eq ha hd]
  exact List.mem_append_right _ (mem_join_of_mem hs hcs)

theorem exists_segment_of_mem {path : Text} {c : Char} (h : c ∈ path) (hc : c ≠ '/') :
    ∃ s ∈ segments path, c ∈ s := by
  rw [← join_splitOn path] at h
  rcases mem_join h with hslash | ⟨s, hs, hcs⟩
  · exact absurd hslash hc
  · exact ⟨s, List.mem_filter.mpr ⟨hs, by simpa using List.ne_nil_of_mem hcs⟩, hcs⟩

theorem mem_of_mem_segment {path s : Text} {c : Char} (hs : s ∈ segments path) (hc : c ∈ s) :
    c ∈ path := by
  rw [← join_splitOn path]
  exact mem_join_of_mem (List.mem_filter.mp hs).1 hc

example : normpath "/workspace//builds/./out/".toList = "/workspace/builds/out".toList := by decide

end PosixPath
