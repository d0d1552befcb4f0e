import WorkerBridge.Startup

namespace WorkerBridge.Watchdog

/-- `min(a, b)`. -/
def pyMin (a b : Float) : Float := if b < a then b else a

/-- The sleep that `sleep_until_next_poll` asks for. -/
def sleepRequest (config : FloatConfig) (deadline now : Float) : Option Float :=
  let remaining := deadline - now
  if 0.0 < remaining then some (pyMin config.pollInterval remaining) else none

/-- The settings have their minimum.  So a sleep is one of a poll interval at least or of all the
time left, and some clock comes to the deadline. -/
structure FloatConfig.Sound (config : FloatConfig) : Prop where
  pollInterval : minimumSeconds ≤ config.pollInterval
  timeoutSeconds : minimumSeconds ≤ config.timeoutSeconds
  requestTimeout : minimumSeconds ≤ config.requestTimeout
  maxTransientErrors : 1 ≤ config.maxTransientErrors
  sleeps : ∀ deadline now d, sleepRequest config deadline now = some d →
    0.0 ≤ d ∧ (minimumSeconds ≤ d ∨ d = deadline - now)
  ends : ∃ start now : Float, start.isFinite = true ∧ now.isFinite = true ∧
    start + config.timeoutSeconds ≤ now

section Inputs

variable (interp : Interpreter) (environ : Text → Option Text) (file : EnvFile)

/-- The text of a setting, from the environment or else from the file. -/
def settingOf (name : String) : Option Text :=
  match parseEnvFile file with
  | .ok fileValues => getSetting environ name.toList fileValues none
  | .error _ => none

/-- An option is at least the minimum, and a setting that no option replaces is not `NaN`. -/
def IsBounded (option setting : Option Text) : Prop :=
  match option with
  | some t => ∀ x, Text.float interp.unicode t = some x → minimumSeconds ≤ x
  | none => ∀ t x, setting = some t → Text.float interp.unicode t = some x → x.isNaN = false

/-- The option, or else the setting, is a finite number. -/
def IsFinite (option setting : Option Text) : Prop :=
  ∀ t x, (option <|> setting) = some t → Text.float interp.unicode t = some x → x.isFinite = true

/-- The texts that leave the settings sound. -/
structure Bounded (line : CommandLine) : Prop where
  pollInterval : IsBounded interp line.interval (settingOf environ file "AI_BRIDGE_POLL_INTERVAL")
  timeoutSeconds :
    IsBounded interp line.timeout (settingOf environ file "AI_BRIDGE_TIMEOUT_SECONDS")
  requestTimeout :
    IsBounded interp line.requestTimeout (settingOf environ file "AI_BRIDGE_REQUEST_TIMEOUT")
  maxTransientErrors : ∀ t n, line.maxTransientErrors = some t →
    Text.int interp.unicode t = some n → 1 ≤ n
  finite : IsFinite interp line.timeout (settingOf environ file "AI_BRIDGE_TIMEOUT_SECONDS")

end Inputs

variable {interp : Interpreter} {environ : Text → Option Text} {files : Text → EnvFile}
  {file : EnvFile} {line : CommandLine} {config : FloatConfig}

theorem parseFloat_ok {name : Text} {value : Option Text} {default minimum x : Float}
    (h : parseFloat interp name value default minimum = .ok x) :
    ((value = none ∨ value = some []) ∧ x = default) ∨
      ∃ t, value = some t ∧ Text.float interp.unicode t = some x ∧ ¬ x < minimum := by
  unfold parseFloat at h
  split at h
  · cases h
    exact Or.inl ⟨Or.inl rfl, rfl⟩
  · cases h
    exact Or.inl ⟨Or.inr rfl, rfl⟩
  · next t _ =>
    split at h
    · cases h
    · next parsed hparsed =>
      split at h
      · cases h
      · next hmin =>
        cases h
        exact Or.inr ⟨t, rfl, hparsed, hmin⟩

theorem parseInt_ok {name : Text} {value : Option Text} {default minimum n : ℤ}
    (h : parseInt interp name value default minimum = .ok n) : n = default ∨ minimum ≤ n := by
  unfold parseInt at h
  split at h
  · cases h
    exact Or.inl rfl
  · cases h
    exact Or.inl rfl
  · split at h
    · cases h
    · split at h
      · cases h
      · next hmin =>
        cases h
        exact Or.inr (not_lt.mp hmin)

theorem optional_eq_some {α : Type} {type : Text → Option α} {option : Option Text} {o : Option α}
    (h : optional type option = some o) :
    (option = none ∧ o = none) ∨ ∃ t x, option = some t ∧ type t = some x ∧ o = some x := by
  cases option with
  | none =>
    cases h
    exact Or.inl ⟨rfl, rfl⟩
  | some t =>
    obtain ⟨x, hx, rfl⟩ := Option.map_eq_some_iff.mp h
    exact Or.inr ⟨t, x, rfl, hx, rfl⟩

section Reading

variable {α : Type} {read : Text → Option α} {P : α → Prop} {source : Option Text} {t : Text} {x : α}

theorem forall_some_iff {o : Option α} (h : o = some x) : (∀ y, o = some y → P y) ↔ P x := by
  constructor
  · exact fun hall => hall x h
  · intro hx y hy
    rw [h] at hy
    cases hy
    exact hx

theorem read_iff (hs : source = some t) (hx : read t = some x) :
    (∀ t y, source = some t → read t = some y → P y) ↔ P x := by
  constructor
  · exact fun hall => hall t x hs hx
  · intro h t' y ht' hy
    rw [hs] at ht'
    cases ht'
    exact (forall_some_iff hx).mpr h y hy

theorem read_none (h : ∀ t, source = some t → read t = none) :
    ∀ t y, source = some t → read t = some y → P y := by
  intro t y ht hy
  rw [h t ht] at hy
  cases hy

end Reading

inductive Source (interp : Interpreter) (option setting : Option Text) (default : Float) :
    Float → Prop
  | option {t : Text} {x : Float} (ho : option = some t)
      (hx : Text.float interp.unicode t = some x) : Source interp option setting default x
  | setting {t : Text} {x : Float} (ho : option = none) (hs : setting = some t)
      (hx : Text.float interp.unicode t = some x) (hmin : ¬ x < minimumSeconds) :
      Source interp option setting default x
  | default (ho : option = none)
      (hs : ∀ t, setting = some t → Text.float interp.unicode t = none) :
      Source interp option setting default default

section Value

variable {option setting : Option Text} {default x : Float}

theorem source_of_parse {name : Text} {y : Float} {o : Option Float}
    (ho : optional (Text.float interp.unicode) option = some o)
    (hy : parseFloat interp name setting default minimumSeconds = .ok y) :
    Source interp option setting default (o.getD y) := by
  rcases optional_eq_some ho with ⟨hnone, rfl⟩ | ⟨t, x, ht, hx, rfl⟩
  · rcases parseFloat_ok hy with ⟨hs | hs, rfl⟩ | ⟨t, hs, hx, hmin⟩
    · refine .default hnone fun t ht => ?_
      rw [hs] at ht
      cases ht
    · refine .default hnone fun t ht => ?_
      rw [hs] at ht
      cases ht
      exact Text.float_nil _
    · exact .setting hnone hs hx hmin
  · exact .option ht hx

theorem Source.minimum_le_iff (h : Source interp option setting default x)
    (hd : minimumSeconds ≤ default) : minimumSeconds ≤ x ↔ IsBounded interp option setting := by
  cases h with
  | option ho hx =>
    subst ho
    exact (forall_some_iff hx).symm
  | setting ho hs hx hmin =>
    subst ho
    rw [Floats.le_iff_of_not_lt rfl hmin]
    exact (read_iff (P := fun y => y.isNaN = false) hs hx).symm
  | default ho hs =>
    subst ho
    exact iff_of_true hd (read_none hs)

theorem Source.isFinite_iff (h : Source interp option setting default x)
    (hd : default.isFinite = true) : x.isFinite = true ↔ IsFinite interp option setting := by
  cases h with
  | option ho hx =>
    subst ho
    exact (read_iff (P := fun y => y.isFinite = true) rfl hx).symm
  | setting ho hs hx hmin =>
    subst ho
    exact (read_iff (P := fun y => y.isFinite = true) hs hx).symm
  | default ho hs =>
    subst ho
    exact iff_of_true hd (read_none hs)

end Value

/-- Where the settings of an accepted start come from. -/
structure Sources (interp : Interpreter) (environ : Text → Option Text) (file : EnvFile)
    (line : CommandLine) (config : FloatConfig) : Prop where
  pollInterval : Source interp line.interval (settingOf environ file "AI_BRIDGE_POLL_INTERVAL")
    defaultPollInterval config.pollInterval
  timeoutSeconds : Source interp line.timeout
    (settingOf environ file "AI_BRIDGE_TIMEOUT_SECONDS") defaultTimeoutSeconds config.timeoutSeconds
  requestTimeout : Source interp line.requestTimeout
    (settingOf environ file "AI_BRIDGE_REQUEST_TIMEOUT") defaultRequestTimeout config.requestTimeout
  maxTransientErrors : (line.maxTransientErrors = none ∧ 1 ≤ config.maxTransientErrors) ∨
    ∃ t, line.maxTransientErrors = some t ∧
      Text.int interp.unicode t = some config.maxTransientErrors

theorem bind_eq_ok {ε α β : Type} {x : Except ε α} {f : α → Except ε β} {b : β}
    (h : (x >>= f) = .ok b) : ∃ a, x = .ok a ∧ f a = .ok b := by
  cases x with
  | error e => cases h
  | ok a => exact ⟨a, rfl, h⟩

theorem sources_of_mainConfig (h : mainConfig interp environ files line = some (.ok config)) :
    Sources interp environ (files (line.envFile.getD ".env".toList)) line config := by
  obtain ⟨args, hargs, hconfig⟩ := Option.map_eq_some_iff.mp h
  obtain ⟨interval, hinterval, hargs⟩ := Option.bind_eq_some_iff.mp hargs
  obtain ⟨timeout, htimeout, hargs⟩ := Option.bind_eq_some_iff.mp hargs
  obtain ⟨requestTimeout, hrequest, hargs⟩ := Option.bind_eq_some_iff.mp hargs
  obtain ⟨maxErrors, hmax, hargs⟩ := Option.bind_eq_some_iff.mp hargs
  cases hargs
  cases hload : loadConfig interp environ (files (line.envFile.getD ".env".toList)) with
  | error raised =>
    rw [hload] at hconfig
    cases hconfig
  | ok base =>
    rw [hload] at hconfig
    cases hconfig
    obtain ⟨fileValues, hfile, hrest⟩ := bind_eq_ok hload
    have hsetting : ∀ name, settingOf environ (files (line.envFile.getD ".env".toList)) name =
        getSetting environ name.toList fileValues none := by
      intro name
      unfold settingOf
      rw [hfile]
    dsimp only at hrest
    split at hrest
    · cases hrest
    · cases hrest
    · obtain ⟨baseUrl, -, hrest⟩ := bind_eq_ok hrest
      obtain ⟨pollInterval, hpoll, hrest⟩ := bind_eq_ok hrest
      obtain ⟨timeoutSeconds, hseconds, hrest⟩ := bind_eq_ok hrest
      obtain ⟨perRequest, hper, hrest⟩ := bind_eq_ok hrest
      obtain ⟨maxTransientErrors, herrors, hrest⟩ := bind_eq_ok hrest
      cases hrest
      refine ⟨?_, ?_, ?_, ?_⟩
      · rw [hsetting]
        exact source_of_parse hinterval hpoll
      · rw [hsetting]
        exact source_of_parse htimeout hseconds
      · rw [hsetting]
        exact source_of_parse hrequest hper
      · rcases optional_eq_some hmax with ⟨hnone, rfl⟩ | ⟨t, n, ht, hn, rfl⟩
        · refine Or.inl ⟨hnone, ?_⟩
          rcases parseInt_ok herrors with rfl | hle
          · show (1 : ℤ) ≤ 5
            decide
          · exact hle
        · exact Or.inr ⟨t, ht, hn⟩

theorem minimum_pos : 0.0 < minimumSeconds := by decide

theorem sleeps_of_minimum (h : minimumSeconds ≤ config.pollInterval) {deadline now d : Float}
    (hd : sleepRequest config deadline now = some d) :
    0.0 ≤ d ∧ (minimumSeconds ≤ d ∨ d = deadline - now) := by
  unfold sleepRequest at hd
  dsimp only at hd
  split at hd
  · next hleft =>
    cases hd
    unfold pyMin
    split
    · exact ⟨Floats.le_of_lt hleft, Or.inr rfl⟩
    · exact ⟨Floats.le_of_lt (Floats.pos_of_le minimum_pos h), Or.inl h⟩
  · cases hd

theorem ends_iff_isFinite {timeout : Float} (h : minimumSeconds ≤ timeout) :
    (∃ start now : Float, start.isFinite = true ∧ now.isFinite = true ∧ start + timeout ≤ now) ↔
      timeout.isFinite = true := by
  constructor
  · rintro ⟨start, now, hstart, hnow, hle⟩
    exact Floats.isFinite_of_add_le hstart hnow (Floats.pos_of_le minimum_pos h) hle
  · intro hfinite
    have hsum := Floats.isFinite_zero_add hfinite
    exact ⟨0.0, 0.0 + timeout, by decide, hsum, Floats.le_self_of_isFinite hsum⟩

theorem maxTransientErrors_iff
    (h : Sources interp environ file line config) : 1 ≤ config.maxTransientErrors ↔
      ∀ t n, line.maxTransientErrors = some t → Text.int interp.unicode t = some n → 1 ≤ n := by
  rcases h.maxTransientErrors with ⟨hnone, hle⟩ | ⟨t, ht, hn⟩
  · refine iff_of_true hle (read_none fun t ht => ?_)
    rw [hnone] at ht
    cases ht
  · exact (read_iff ht hn).symm

/-- The settings as the exact numbers that the loop is run with. -/
def FloatConfig.exact (config : FloatConfig) : Option WatchdogConfig :=
  (Floats.value config.pollInterval).bind fun pollInterval =>
    (Floats.value config.timeoutSeconds).map fun timeoutSeconds =>
      ⟨pollInterval, timeoutSeconds, config.maxTransientErrors⟩

theorem stops_of_bounded (h : mainConfig interp environ files line = some (.ok config))
    (hb : Bounded interp environ (files (line.envFile.getD ".env".toList)) line)
    (hfinite : config.pollInterval.isFinite = true) :
    ∃ exact, config.exact = some exact ∧ ∀ lib out taskId, Passes lib exact out taskId →
      Stops lib exact out taskId ⌈exact.timeoutSeconds / exact.pollInterval⌉₊ := by
  have hs := sources_of_mainConfig h
  have hpoll := (hs.pollInterval.minimum_le_iff (by decide)).mpr hb.pollInterval
  have htimeout := (hs.timeoutSeconds.minimum_le_iff (by decide)).mpr hb.timeoutSeconds
  have hends := (hs.timeoutSeconds.isFinite_iff (by decide)).mpr hb.finite
  obtain ⟨p, hp, hpos⟩ := Floats.value_pos (Floats.pos_of_le minimum_pos hpoll) hfinite
  obtain ⟨t, ht, -⟩ := Floats.value_pos (Floats.pos_of_le minimum_pos htimeout) hends
  refine ⟨⟨p, t, config.maxTransientErrors⟩, ?_, fun lib out taskId hclock => ?_⟩
  · unfold FloatConfig.exact
    rw [hp, ht]
    rfl
  · exact stops_of_passes hpos hclock

/-- The settings of an accepted start are sound if and only if no option is below the minimum or
`NaN`, no setting in force is `NaN`, and the timeout is not infinite. -/
theorem settings_sound_iff (h : mainConfig interp environ files line = some (.ok config)) :
    config.Sound ↔ Bounded interp environ (files (line.envFile.getD ".env".toList)) line := by
  have hs := sources_of_mainConfig h
  have hpoll := hs.pollInterval.minimum_le_iff (by decide)
  have htimeout := hs.timeoutSeconds.minimum_le_iff (by decide)
  have hrequest := hs.requestTimeout.minimum_le_iff (by decide)
  have hfinite := hs.timeoutSeconds.isFinite_iff (by decide)
  have herrors := maxTransientErrors_iff hs
  constructor
  · intro hsound
    refine ⟨hpoll.mp hsound.pollInterval, htimeout.mp hsound.timeoutSeconds,
      hrequest.mp hsound.requestTimeout, herrors.mp hsound.maxTransientErrors, ?_⟩
    exact hfinite.mp ((ends_iff_isFinite hsound.timeoutSeconds).mp hsound.ends)
  · intro hb
    have hle := htimeout.mpr hb.timeoutSeconds
    exact ⟨hpoll.mpr hb.pollInterval, hle, hrequest.mpr hb.requestTimeout,
      herrors.mpr hb.maxTransientErrors,
      fun _ _ _ hd => sleeps_of_minimum (hpoll.mpr hb.pollInterval) hd,
      (ends_iff_isFinite hle).mpr (hfinite.mpr hb.finite)⟩

namespace Sample

def interpreter : Interpreter := ⟨⟨fun _ => none, Char.isDigit⟩, fun _ => "0.1".toList⟩

def environment (entries : List (String × String)) (name : Text) : Option Text :=
  (entries.find? fun entry => entry.1.toList == name).map fun entry => entry.2.toList

def host : String × String := ("AI_BRIDGE_MCP_HOST", "http://127.0.0.1")

/-- The command line with an interval, if there is one. -/
def arguments (interval : Option Text) : CommandLine := ⟨"a".toList, none, interval, none, none, none⟩

def everySecond : FloatConfig := ⟨"http://127.0.0.1".toList, [], 1.0, 1800.0, 15.0, 5⟩

end Sample

/-- A start with the defaults and an interval of one second. -/
theorem everySecond_sound : mainConfig Sample.interpreter (Sample.environment [Sample.host])
    (fun _ => .missing) (Sample.arguments (some "1".toList)) = some (.ok Sample.everySecond) ∧
      Sample.everySecond.Sound := by
  have h : mainConfig Sample.interpreter (Sample.environment [Sample.host]) (fun _ => .missing)
      (Sample.arguments (some "1".toList)) = some (.ok Sample.everySecond) := by rfl
  refine ⟨h, (settings_sound_iff h).mpr ⟨?_, ?_, ?_, ?_, ?_⟩⟩
  · intro x hx
    cases hx
    decide
  · intro t x ht
    cases ht
  · intro t x ht
    cases ht
  · intro t n ht
    cases ht
  · intro t x ht
    cases ht

/-- `NaN` in the environment is taken, and so is an interval of zero on the command line. -/
theorem unsound_settings :
    (∃ config, mainConfig Sample.interpreter
      (Sample.environment [Sample.host, ("AI_BRIDGE_POLL_INTERVAL", "nan")]) (fun _ => .missing)
      (Sample.arguments none) = some (.ok config) ∧ ¬ config.Sound) ∧
    ∃ config, mainConfig Sample.interpreter (Sample.environment [Sample.host]) (fun _ => .missing)
      (Sample.arguments (some "0".toList)) = some (.ok config) ∧ ¬ config.Sound := by
  refine ⟨⟨_, rfl, fun h => ?_⟩, ⟨_, rfl, fun h => ?_⟩⟩
  · exact absurd h.pollInterval (by decide)
  · exact absurd h.pollInterval (by decide)

end WorkerBridge.Watchdog
