import WorkerBridge.Scopes

namespace WorkerBridge

/-- The coroutines of the dictionary that are not done. -/
def Manager.liveHandles (m : Manager) : List (String × Handle) :=
  m.background.filterMap fun e =>
    (m.handles[e.2]?.filter fun h => !h.phase.done).map fun h => (e.1, h)

theorem Manager.liveHandles_eq_nil {m : Manager} (h : m.hasActiveTasks = false) :
    m.liveHandles = [] := by
  unfold hasActiveTasks at h
  rw [List.any_eq_false] at h
  unfold liveHandles
  refine List.filterMap_eq_nil_iff.mpr fun e he => ?_
  have hdone := h e he
  rw [Option.map_eq_none_iff, Option.filter_eq_none_iff]
  intro k hk
  unfold done at hdone
  rw [hk] at hdone
  simpa using hdone

def CanLog (files : Files) (config : LoggingConfig) : Prop :=
  (∃ level, levelNumber config.level = .ok level) ∧
    ∀ exc, files.log config.filePath ≠ .raises exc

def LoggedAs (files : Files) (root : LoggingState) (config : LoggingConfig) : Prop :=
  match levelNumber config.level with
  | .error _ => root.handlers = []
  | .ok level => root.level = level ∧ match files.log config.filePath with
    | .ok => root.handlers = [.stdout, .file config.filePath]
    | _ => root.handlers = [.stdout]

theorem configureLogging_ok_iff {files : Files} {root : LoggingState} {config : LoggingConfig} :
    (configureLogging files root config).2 = .ok () ↔ CanLog files config := by
  unfold configureLogging CanLog
  cases levelNumber config.level with
  | error exc => simp
  | ok level => cases files.log config.filePath <;> simp

theorem configureLogging_same_iff {files : Files} {root : LoggingState} {config : LoggingConfig} :
    (configureLogging files root config).1 = root ↔ LoggedAs files root config := by
  obtain ⟨rootLevel, handlers⟩ := root
  unfold configureLogging LoggedAs
  cases levelNumber config.level with
  | error exc => simp [eq_comm]
  | ok level => cases files.log config.filePath <;> simp [eq_comm]

namespace Process

variable {p : Process}

theorem stop_handles (h : p.mgr.hasActiveTasks = false) :
    p.stop.mgr.handles = p.mgr.handles := by
  -- There is nothing to wait for, so nothing is cancelled.
  unfold stop
  split
  · rfl
  · show p.mgr.handles.mapIdx _ = p.mgr.handles
    refine List.ext_getElem? fun i => ?_
    rw [List.getElem?_mapIdx]
    cases hat : p.mgr.handles[i]? with
    | none => rfl
    | some k =>
      rw [Option.map_some]
      congr 1
      split
      · next hmem =>
        obtain ⟨e, he, rfl⟩ := List.mem_map.mp hmem
        unfold Manager.hasActiveTasks at h
        have hdone := List.any_eq_false.mp h e he
        unfold Manager.done at hdone
        rw [hat] at hdone
        unfold Handle.cancel
        rw [if_pos (by simpa using hdone)]
      · rfl

theorem stop_gathered (h : p.mgr.hasActiveTasks = false) (hb : p.mgr.background ≠ []) :
    p.stop.mgr.gathering = some (p.mgr.background.map Prod.snd) ∧
      (p.mgr.background.map Prod.snd).all p.stop.mgr.done = true := by
  have hdone : p.stop.mgr.done = p.mgr.done := by
    funext i
    unfold Manager.done
    rw [stop_handles h]
  refine ⟨?_, ?_⟩
  · unfold stop
    rw [if_neg (by simpa using hb)]
  · rw [hdone, List.all_map, List.all_eq_true]
    intro e he
    unfold Manager.hasActiveTasks at h
    simpa using List.any_eq_false.mp h e he

end Process

namespace App

variable {env : Environment} {app app' : App}

def reloadNow (env : Environment) (app : App) (front : Front) (ctx : AuthContext) (files : Files)
    (loaded : Except PyExc AppConfig) (fault : Option Fault) (now : String) :
    App × ReloadOutcome :=
  match app.reloadConfig env front ctx files loaded fault now with
  | (app', .suspended) =>
    match app'.reloading with
    | some pending => (app'.resumeReload env pending fault now).getD (app', .suspended)
    | none => (app', .suspended)
  | out => out

/-- What a failed reload should leave as it was. -/
structure Unchanged (app app' : App) : Prop where
  config : app'.config = app.config
  store : app'.store = app.store
  manager : app'.manager = app.manager
  workers : app'.workers = app.workers
  audit : app'.audit = app.audit
  logging : app'.logging = app.logging
  old : ∃ m', app'.managers[app.manager]? = some m' ∧ app.current.SameSettings m' ∧
    m'.core.liveHandles = app.current.core.liveHandles ∧
    m'.core.started = app.current.core.started

def ReachesStop (app : App) (files : Files) (config : AppConfig) : Prop :=
  CanLog files config.logging ∧
    (∃ audit, AuditLogger.new files config.audit = .ok audit) ∧
    config.sqlitePath ≠ app.config.sqlitePath ∧ app.current.core.hasActiveTasks = false

/-- What the call did before it failed leaves no trace: nothing was loaded, or the root logger is
as the configuration has it, and a manager that was stopped was not running. -/
def FailsQuietly (app : App) (files : Files) : Except PyExc AppConfig → Prop
  | .error _ => True
  | .ok config => LoggedAs files app.logging config.logging ∧
      (app.ReachesStop files config → app.current.core.started = false)

/-- The application once the old manager is stopped. -/
structure Halted (app app' : App) : Prop where
  config : app'.config = app.config
  store : app'.store = app.store
  manager : app'.manager = app.manager
  workers : app'.workers = app.workers
  audit : app'.audit = app.audit
  logging : app'.logging = app.logging
  old : ∃ m', app'.managers[app.manager]? = some m' ∧ app.current.SameSettings m' ∧
    m'.core.liveHandles = [] ∧ m'.core.started = false

theorem Halted.of_put {m' : TaskManager} (hm : app'.managers[app.manager]? = some m')
    (hsettings : app.current.SameSettings m') (hb : m'.core.background = [])
    (hs : m'.core.started = false) (hconfig : app'.config = app.config)
    (hstore : app'.store = app.store) (hmanager : app'.manager = app.manager)
    (hworkers : app'.workers = app.workers) (haudit : app'.audit = app.audit)
    (hlogging : app'.logging = app.logging) : Halted app app' := by
  refine ⟨hconfig, hstore, hmanager, hworkers, haudit, hlogging, m', hm, hsettings, ?_, hs⟩
  unfold Manager.liveHandles
  rw [hb]
  rfl

theorem installManager_settles (env : Environment) (app : App) (pending : PendingReload)
    (fault : Option Fault) (now : String) :
    (app.installManager env pending fault now).2 ≠ .suspended := by
  rcases installManager_cases env app pending fault now with ⟨w, exc, -, hout⟩ | ⟨p, -, hout⟩
  · rw [hout]
    exact nofun
  · rw [hout]
    exact nofun

theorem halting_halted (h : app.current.core.background.isEmpty = true) :
    Halted app app.halting := by
  have hs := (app.process app.current).stop_settings
  have hstop : (app.process app.current).stop.mgr.background = [] ∧
      (app.process app.current).stop.mgr.started = false := by
    have hempty : (app.process app.current).mgr.background.isEmpty = true := h
    unfold Process.stop
    rw [if_pos hempty]
    exact ⟨rfl, rfl⟩
  exact .of_put (List.getElem?_set_self app.manager_lt)
    ⟨⟨hs.workers, hs.recovery, hs.limits⟩, rfl, rfl, rfl⟩ hstop.1 hstop.2 rfl rfl rfl rfl rfl rfl

theorem resumeReload_halted (app : App) (env : Environment) (pending : PendingReload)
    (fault : Option Fault) (now : String) (hmanager : pending.manager = app.manager)
    (hactive : app.current.core.hasActiveTasks = false)
    (hempty : app.current.core.background.isEmpty = false) :
    ∃ app', Halted app app' ∧
      ({ app.halting with reloading := some pending } : App).resumeReload env pending fault now =
        some (app'.installManager env pending fault now) := by
  have hb : (app.process app.current).mgr.background ≠ [] := by
    intro he
    rw [show app.current.core.background = [] from he] at hempty
    cases hempty
  obtain ⟨hgathering, hdone⟩ := (app.process app.current).stop_gathered hactive hb
  have hs := (app.process app.current).stop_settings
  let m : TaskManager := { app.current with core := (app.process app.current).stop.mgr }
  let waiting : App := { app.halting with reloading := some pending }
  let halted : App := waiting.put app.manager m (waiting.process m).stopped
  have hm : waiting.managers[app.manager]? = some m := List.getElem?_set_self app.manager_lt
  have hat : halted.managers[app.manager]? =
      some { m with core := (waiting.process m).stopped.mgr } :=
    List.getElem?_set_self waiting.manager_lt
  refine ⟨halted, .of_put hat ⟨⟨hs.workers, hs.recovery, hs.limits⟩, rfl, rfl, rfl⟩ rfl rfl rfl rfl
    rfl rfl rfl rfl, ?_⟩
  have hgathering' : m.core.gathering = some (app.current.core.background.map Prod.snd) :=
    hgathering
  show waiting.resumeReload env pending fault now = _
  unfold resumeReload
  rw [hmanager, hm, Option.bind_some]
  simp only [hgathering']
  exact if_pos hdone

theorem reloadNow_halts (env : Environment) (front : Front) (ctx : AuthContext) {files : Files}
    {config : AppConfig} (fault : Option Fault) (now : String)
    (h : app.ReachesStop files config) :
    ∃ app' pending,
      Halted (app.logged (configureLogging files app.logging config.logging).1) app' ∧
      app.reloadNow env front ctx files (.ok config) fault now =
        app'.installManager env pending fault now := by
  obtain ⟨hcan, ⟨audit, haudit⟩, hpath, hactive⟩ := h
  have hlog : (configureLogging files app.logging config.logging).2 = .ok () :=
    configureLogging_ok_iff.mpr hcan
  have hreloads := reloadConfig_reloads env app front ctx files (.ok config) fault now
  unfold reloadNow
  generalize app.reloadConfig env front ctx files (.ok config) fault now = out at hreloads ⊢
  cases hreloads with
  -- Nothing that comes before the `stop` raises.
  | unlogged _ root exc hfail =>
    rw [hfail] at hlog
    cases hlog
  | unaudited _ root exc _ hfail =>
    rw [hfail] at haudit
    cases haudit
  | refused _ root audit' _ _ _ htasks =>
    rw [hactive] at htasks
    cases htasks
  | installs _ root audit' hroot _ _ _ hempty =>
    rw [hroot]
    let pending : PendingReload := ⟨front, ctx, files, config, audit', app.manager⟩
    have hsettles := installManager_settles env (app.logged root).halting pending fault now
    refine ⟨(app.logged root).halting, pending, halting_halted hempty, ?_⟩
    split
    · next hsuspended =>
      rw [hsuspended] at hsettles
      exact absurd rfl hsettles
    · rfl
  | waits _ root audit' hroot _ _ _ hempty =>
    -- All that the `gather` waits for is done.
    rw [hroot]
    let pending : PendingReload := ⟨front, ctx, files, config, audit', app.manager⟩
    obtain ⟨app', hhalted, hresume⟩ :=
      resumeReload_halted (app.logged root) env pending fault now rfl hactive hempty
    refine ⟨app', pending, hhalted, ?_⟩
    simp only
    rw [hresume]
    rfl
  | updates _ root audit' _ _ hsame => exact absurd hsame hpath

theorem reloadNow_raised {front : Front} {ctx : AuthContext} {files : Files} {config : AppConfig}
    {fault : Option Fault} {now : String} {failure : Failure}
    (h : (app.reloadNow env front ctx files (.ok config) fault now).2 = .raised failure)
    (hstop : ¬ app.ReachesStop files config) :
    (app.reloadNow env front ctx files (.ok config) fault now).1 =
      app.logged (configureLogging files app.logging config.logging).1 := by
  -- Before the `stop` only the root logger is touched.
  have hreloads := reloadConfig_reloads env app front ctx files (.ok config) fault now
  unfold reloadNow at h ⊢
  generalize app.reloadConfig env front ctx files (.ok config) fault now = out at h hreloads ⊢
  cases hreloads with
  | unlogged _ root exc hroot => rw [hroot]
  | unaudited _ root exc hroot => rw [hroot]
  | refused _ root audit hroot => rw [hroot]
  | installs _ root audit hroot haudit hpath hactive =>
    have hcan := configureLogging_ok_iff.mp (congrArg Prod.snd hroot)
    exact absurd ⟨hcan, ⟨audit, haudit⟩, hpath, hactive⟩ hstop
  | waits _ root audit hroot haudit hpath hactive =>
    have hcan := configureLogging_ok_iff.mp (congrArg Prod.snd hroot)
    exact absurd ⟨hcan, ⟨audit, haudit⟩, hpath, hactive⟩ hstop
  -- The branch that keeps the database raises nothing.
  | updates => cases h

/-- A reload that raises has changed nothing, if and only if it failed quietly. -/
theorem failed_reload_unchanged_iff {front : Front} {ctx : AuthContext} {files : Files}
    {loaded : Except PyExc AppConfig} {fault : Option Fault} {now : String} {failure : Failure}
    (h : (app.reloadNow env front ctx files loaded fault now).2 = .raised failure) :
    app.Unchanged (app.reloadNow env front ctx files loaded fault now).1 ↔
      app.FailsQuietly files loaded := by
  have hself : app.Unchanged app :=
    ⟨rfl, rfl, rfl, rfl, rfl, rfl, app.current, app.current_at, .refl _, rfl, rfl⟩
  cases loaded with
  | error exc => exact ⟨fun _ => trivial, fun _ => hself⟩
  | ok config =>
    -- A manager that was running tells whether the call came to the `stop`.
    by_cases hstop : app.ReachesStop files config
    · obtain ⟨app', pending, hhalted, hout⟩ := reloadNow_halts env front ctx fault now hstop
      rw [hout] at h ⊢
      obtain ⟨m', hm', hsettings, hlive, hs⟩ := hhalted.old
      rcases installManager_cases env app' pending fault now with
        ⟨w, exc, -, hfail⟩ | ⟨p, -, hok⟩
      · rw [hfail]
        constructor
        · intro hu
          obtain ⟨m'', hm'', -, -, hs'⟩ := hu.old
          obtain rfl : m' = m'' := Option.some.inj (hm'.symm.trans hm'')
          have hlog := configureLogging_same_iff.mp (hhalted.logging.symm.trans hu.logging)
          exact ⟨hlog, fun _ => hs'.symm.trans hs⟩
        · rintro ⟨hlogged, hstarted⟩
          have hlog := configureLogging_same_iff.mpr hlogged
          refine ⟨hhalted.config, hhalted.store, hhalted.manager, hhalted.workers, hhalted.audit,
            hhalted.logging.trans hlog, m', hm', hsettings, ?_, ?_⟩
          · rw [hlive, Manager.liveHandles_eq_nil hstop.2.2.2]
          · rw [hs, hstarted hstop]
      · rw [hok] at h
        cases h
    · rw [reloadNow_raised h hstop]
      constructor
      · intro hu
        exact ⟨configureLogging_same_iff.mp hu.logging, fun hr => absurd hr hstop⟩
      · rintro ⟨hlogged, -⟩
        have hlog := configureLogging_same_iff.mpr hlogged
        exact ⟨rfl, rfl, rfl, rfl, rfl, hlog, app.current, app.current_at, .refl _, rfl, rfl⟩

/-- A reload that was left waiting has stopped the old manager when it raises, whatever the other
coroutines did in between. -/
theorem waited_reload_halts {pending : PendingReload} {fault : Option Fault} {now : String}
    {failure : Failure}
    (h : app.resumeReload env pending fault now = some (app', .raised failure)) :
    ∃ m', app'.managers[pending.manager]? = some m' ∧ m'.core.started = false := by
  obtain ⟨m, hm, h⟩ := Option.bind_eq_some_iff.mp h
  split at h
  · split at h
    · have hat : (app.put pending.manager m (app.process m).stopped).managers[pending.manager]? =
          some { m with core := (app.process m).stopped.mgr } := by
        obtain ⟨hlt, -⟩ := List.getElem?_eq_some_iff.mp hm
        exact List.getElem?_set_self hlt
      rcases installManager_cases env (app.put pending.manager m (app.process m).stopped) pending
        fault now with ⟨w, exc, -, hout⟩ | ⟨p, -, hout⟩
      · rw [hout] at h
        cases h
        exact ⟨_, hat, rfl⟩
      · rw [hout] at h
        cases h
    · cases h
  · cases h

/-- A reload to another database is refused while a task is active. -/
theorem failed_reload_unchanged_iff_refused : ∃ app : App,
    app.current.core.hasActiveTasks = true ∧
    app.Unchanged (app.reloadNow Sample.environment .http Sample.operator Sample.files
      (.ok (Sample.appConfig "/b".toList)) none "t2").1 := by
  obtain ⟨app, -, hp⟩ := Server.exists_running Sample.environment (fun _ => World.empty)
    [Sample.start (Sample.appConfig "/a".toList), .act (Sample.submit Sample.operator "a")]
    (fun app => app.current.core.hasActiveTasks &&
      (decide ((configureLogging Sample.files app.logging
          (Sample.appConfig "/b".toList).logging).1 = app.logging) &&
        match (app.reloadNow Sample.environment .http Sample.operator Sample.files
          (.ok (Sample.appConfig "/b".toList)) none "t2").2 with
        | .raised _ => true
        | _ => false)) (by decide)
  simp only [Bool.and_eq_true, decide_eq_true_eq] at hp
  obtain ⟨hactive, hlog, hraised⟩ := hp
  split at hraised
  · next failure hout =>
    have hlogged := configureLogging_same_iff.mp hlog
    refine ⟨app, hactive, (failed_reload_unchanged_iff hout).mpr ⟨hlogged, fun hstop => ?_⟩⟩
    rw [hstop.2.2.2] at hactive
    cases hactive
  · cases hraised

/-- A new database that cannot be opened leaves the old manager stopped. -/
theorem failed_reload_stops_manager : ¬ ∀ app : App,
    (Server.machine Sample.environment fun _ => World.empty).Reachable Runs.anyStep (.up app) →
      ∀ front ctx files loaded fault now failure,
        (app.reloadNow Sample.environment front ctx files loaded fault now).2 = .raised failure →
          app.Unchanged (app.reloadNow Sample.environment front ctx files loaded fault now).1 := by
  intro hall
  obtain ⟨app, hs, hp⟩ := Server.exists_running Sample.environment (fun _ => World.empty)
    [Sample.start (Sample.appConfig "/a".toList)]
    (fun app => app.current.core.started &&
      match app.reloadNow Sample.environment .http Sample.operator Sample.files
        (.ok (Sample.appConfig "/b".toList)) (some (.opening (.other [] []))) "t2" with
      | (app', .raised _) => app'.managers[app.manager]?.any fun m => !m.core.started
      | _ => false) (by decide)
  rw [Bool.and_eq_true] at hp
  obtain ⟨hstarted, hstopped⟩ := hp
  split at hstopped
  · next app' failure hout =>
    have hunchanged := hall app hs _ _ _ _ _ _ failure (congrArg Prod.snd hout)
    rw [hout] at hunchanged
    obtain ⟨m', hm', -, -, hs'⟩ := hunchanged.old
    rw [hm', Option.any_some, hs', hstarted] at hstopped
    cases hstopped
  · cases hstopped

end App

end WorkerBridge
