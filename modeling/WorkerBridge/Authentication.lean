import WorkerBridge.Application
import WorkerBridge.Outgoing

namespace WorkerBridge

structure ScopedKeyConfig where
  keyId : String
  env : Text
  scopes : List Scope
  env_ne_nil : env ≠ []
  scopes_ne_nil : scopes ≠ []

/-- `secrets.compare_digest` of two strings. -/
def compareDigest (a b : Text) : Except PyExc Bool :=
  if a.isAscii && b.isAscii then .ok (decide (a = b))
  else .error (.other "TypeError".toList
    "comparing strings with non-ASCII characters is not supported".toList)

/-- The credential that is presented.  A bearer token goes before the other header. -/
def presentedCredential (authorization xApiKey : Option Text) : Option Text :=
  match authorization with
  | some header =>
    if List.isPrefixOf "Bearer ".toList header then
      some (Text.strip (header.drop "Bearer ".toList.length))
    else xApiKey
  | none => xApiKey

section Authenticate

variable (getenv : Text → Option Text) (sourceIp : Option String)

/-- `AuthContext(True, key.key_id, ...)`. -/
def ScopedKeyConfig.context (key : ScopedKeyConfig) : AuthContext :=
  ⟨key.keyId, key.scopes, sourceIp⟩

def tryKeys (presented : Text) : List ScopedKeyConfig → Except Failure AuthContext
  | [] => .error (.http 401 "invalid API key".toList none)
  | key :: rest =>
    match (getenv key.env).filter (!·.isEmpty) with
    | none => tryKeys presented rest
    | some expected =>
      match compareDigest presented expected with
      | .error exc => .error (.python exc)
      | .ok true => .ok (key.context sourceIp)
      | .ok false => tryKeys presented rest

def authenticate (keys : List ScopedKeyConfig) (authorization xApiKey : Option Text) :
    Except Failure AuthContext :=
  match (presentedCredential authorization xApiKey).filter (!·.isEmpty) with
  | none => .error (.http 401 "missing API key".toList none)
  | some presented => tryKeys getenv sourceIp presented keys

def ScopedKeyConfig.secret (key : ScopedKeyConfig) : Option Text :=
  (getenv key.env).filter (!·.isEmpty)

/-- The first key of which the secret is the credential. -/
def firstMatch (presented : Option Text) (keys : List ScopedKeyConfig) : Option ScopedKeyConfig :=
  keys.find? fun key => (key.secret getenv).isSome && decide (key.secret getenv = presented)

/-- The first key that matches is authenticated, and nothing else. -/
def Exact (presented : Option Text) (keys : List ScopedKeyConfig)
    (answer : Except Failure AuthContext) : Prop :=
  match firstMatch getenv presented keys with
  | some key => answer = .ok (key.context sourceIp)
  | none => ∃ detail, answer = .error (.http 401 detail none)

/-- Every comparison that is made is one of ASCII texts: there is none, or the credential is ASCII
and so are the secrets before the first one it equals. -/
def Comparable (presented : Text) (keys : List ScopedKeyConfig) : Prop :=
  let secrets := keys.filterMap (ScopedKeyConfig.secret getenv)
  secrets ≠ [] → presented.isAscii = true ∧
    ∀ secret ∈ secrets.takeWhile fun secret => decide (secret ≠ presented),
      secret.isAscii = true

variable {getenv sourceIp} {presented : Text} {key : ScopedKeyConfig}
  {keys : List ScopedKeyConfig}

theorem comparable_of_unset (h : key.secret getenv = none) :
    Comparable getenv presented (key :: keys) ↔ Comparable getenv presented keys := by
  unfold Comparable
  rw [List.filterMap_cons_none h]

theorem comparable_of_set {expected : Text} (h : key.secret getenv = some expected) :
    Comparable getenv presented (key :: keys) ↔ presented.isAscii = true ∧
      (expected ≠ presented → expected.isAscii = true ∧ Comparable getenv presented keys) := by
  unfold Comparable
  rw [List.filterMap_cons_some h]
  by_cases he : expected = presented
  · simp [he]
  · simp only [ne_eq, he, not_false_eq_true, List.takeWhile_cons, decide_true, if_true,
      List.forall_mem_cons, forall_const, reduceCtorEq]
    constructor
    · rintro ⟨hp, hexpected, hrest⟩
      exact ⟨hp, hexpected, fun _ => ⟨hp, hrest⟩⟩
    · rintro ⟨hp, hexpected, hrest⟩
      refine ⟨hp, hexpected, ?_⟩
      by_cases hnone : keys.filterMap (ScopedKeyConfig.secret getenv) = []
      · simp [hnone]
      · exact (hrest hnone).2

theorem compareDigest_eq (a b : Text) :
    (compareDigest a b = .ok (decide (a = b)) ∧ a.isAscii = true ∧ b.isAscii = true) ∨
      (∃ exc, compareDigest a b = .error exc) ∧ ¬ (a.isAscii = true ∧ b.isAscii = true) := by
  unfold compareDigest
  split
  · rename_i h
    exact .inl ⟨rfl, by simpa using h⟩
  · rename_i h
    exact .inr ⟨⟨_, rfl⟩, by simpa using h⟩

theorem tryKeys_of_unset (h : key.secret getenv = none) :
    tryKeys getenv sourceIp presented (key :: keys) = tryKeys getenv sourceIp presented keys := by
  unfold ScopedKeyConfig.secret at h
  rw [tryKeys, h]

theorem tryKeys_of_set {expected : Text} (h : key.secret getenv = some expected) :
    tryKeys getenv sourceIp presented (key :: keys) =
      match compareDigest presented expected with
      | .error exc => .error (.python exc)
      | .ok true => .ok (key.context sourceIp)
      | .ok false => tryKeys getenv sourceIp presented keys := by
  unfold ScopedKeyConfig.secret at h
  rw [tryKeys, h]

theorem firstMatch_of_ne (h : key.secret getenv ≠ some presented) :
    firstMatch getenv (some presented) (key :: keys) = firstMatch getenv (some presented) keys := by
  unfold firstMatch
  rw [List.find?_cons_of_neg (by simp [h])]

theorem firstMatch_of_eq (h : key.secret getenv = some presented) :
    firstMatch getenv (some presented) (key :: keys) = some key := by
  unfold firstMatch
  rw [List.find?_cons_of_pos (by simp [h])]

theorem not_exact_python (presented : Option Text) (keys : List ScopedKeyConfig) (exc : PyExc) :
    ¬ Exact getenv sourceIp presented keys (.error (.python exc)) := by
  unfold Exact
  cases firstMatch getenv presented keys <;> simp

theorem tryKeys_exact_iff (keys : List ScopedKeyConfig) :
    Exact getenv sourceIp (some presented) keys (tryKeys getenv sourceIp presented keys) ↔
      Comparable getenv presented keys := by
  induction keys with
  | nil => simp [Exact, firstMatch, tryKeys, Comparable]
  | cons key keys ih =>
    cases hsecret : key.secret getenv with
    | none =>
      rw [comparable_of_unset hsecret, ← ih, tryKeys_of_unset hsecret]
      unfold Exact
      rw [firstMatch_of_ne (by simp [hsecret])]
    | some expected =>
      rw [comparable_of_set hsecret, tryKeys_of_set hsecret]
      obtain ⟨hcompare, hp, he⟩ | ⟨⟨exc, hcompare⟩, hascii⟩ := compareDigest_eq presented expected
      · by_cases heq : presented = expected
        · subst heq
          simp [hcompare, Exact, firstMatch_of_eq hsecret, hp]
        · have hne : expected ≠ presented := fun h => heq h.symm
          have hsome : key.secret getenv ≠ some presented := by simpa [hsecret] using hne
          rw [← ih]
          simp only [hcompare, heq, decide_false, Exact, firstMatch_of_ne hsome]
          simp [hp, he, hne]
      · simp only [hcompare, iff_false_intro (not_exact_python _ _ _), false_iff, not_and]
        intro hp hrest
        have hne : expected ≠ presented := by
          rintro rfl
          exact hascii ⟨hp, hp⟩
        exact hascii ⟨hp, (hrest hne).1⟩

theorem secret_ne_nil : key.secret getenv ≠ some [] := by
  unfold ScopedKeyConfig.secret
  intro h
  have hne := (Option.filter_eq_some_iff.mp h).2
  simp at hne

theorem firstMatch_of_missing {presented : Option Text} (h : presented.filter (!·.isEmpty) = none) :
    firstMatch getenv presented keys = none := by
  refine List.find?_eq_none.mpr fun key _ hkey => ?_
  simp only [Bool.and_eq_true, decide_eq_true_eq] at hkey
  obtain ⟨hsome, hsecret⟩ := hkey
  obtain ⟨secret, hs⟩ := Option.isSome_iff_exists.mp hsome
  rw [← hsecret, hs, Option.filter_eq_none_iff] at h
  have hempty : secret = [] := by simpa using h secret rfl
  exact secret_ne_nil (hs.trans (congrArg some hempty))

/-- The answer to a pair of headers is exact unless the credential, or a secret that comes before
the one it equals, has a character beyond ASCII. -/
theorem authenticate_exact_iff (getenv : Text → Option Text) (sourceIp : Option String)
    (keys : List ScopedKeyConfig) (authorization xApiKey : Option Text) :
    Exact getenv sourceIp (presentedCredential authorization xApiKey) keys
        (authenticate getenv sourceIp keys authorization xApiKey) ↔
      ∀ presented ∈ presentedCredential authorization xApiKey, presented ≠ [] →
        Comparable getenv presented keys := by
  unfold authenticate
  cases hp : (presentedCredential authorization xApiKey).filter (!·.isEmpty) with
  | none =>
    refine iff_of_true ?_ fun presented hmem hne => ?_
    · unfold Exact
      rw [firstMatch_of_missing hp]
      exact ⟨_, rfl⟩
    · rw [Option.filter_eq_none_iff] at hp
      exact absurd (hp presented hmem) (by simpa using hne)
  | some presented =>
    obtain ⟨hpresented, hne⟩ := Option.filter_eq_some_iff.mp hp
    rw [hpresented, tryKeys_exact_iff]
    constructor
    · intro h other hmem _
      obtain rfl := Option.mem_some_iff.mp hmem
      exact h
    · intro h
      exact h presented rfl (by simpa using hne)

end Authenticate

namespace Sample

def operatorKey : ScopedKeyConfig :=
  ⟨"operator", "OPERATOR_KEY".toList, [.read], by decide, by decide⟩

end Sample

/-- A credential that is no ASCII text ends in an error of the comparison, not in a refusal. -/
theorem accented_key_raises :
    authenticate (fun _ => some "s".toList) none [Sample.operatorKey] none (some "é".toList) =
        .error (.python (.other "TypeError".toList
          "comparing strings with non-ASCII characters is not supported".toList)) ∧
      ¬ Exact (fun _ => some "s".toList) none (some "é".toList) [Sample.operatorKey]
        (authenticate (fun _ => some "s".toList) none [Sample.operatorKey] none
          (some "é".toList)) := by
  have heq : authenticate (fun _ => some "s".toList) none [Sample.operatorKey] none
      (some "é".toList) = .error (.python (.other "TypeError".toList
        "comparing strings with non-ASCII characters is not supported".toList)) := by rfl
  refine ⟨heq, ?_⟩
  rw [heq]
  exact not_exact_python _ _ _

end WorkerBridge
