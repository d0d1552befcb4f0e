import WorkerBridge.Bridge
import WorkerBridge.Registry

namespace WorkerBridge

structure LoggingConfig where
  level : Text
  filePath : Text

structure AuditConfig where
  enabled : Bool
  filePath : Text

structure AppConfig where
  sqlitePath : Text
  logging : LoggingConfig
  audit : AuditConfig
  workerCallSecondsBuckets : List ℚ
  circuitBreaker : CircuitBreakerConfig
  recovery : RecoveryConfig
  limits : LimitsConfig
  workers : List WorkerConfig
  buckets_ne_nil : workerCallSecondsBuckets ≠ []
  buckets_increasing : (0 :: workerCallSecondsBuckets).Pairwise (· < ·)
  workerIds_unique : (workers.map WorkerConfig.workerId).Nodup

structure Environment where
  host : Host
  /-- The file that a path of SQLite stands for. -/
  realFile : Text → Text
  /-- `repr` of a JSON value that is no string. -/
  repr : Json → Text

/-- What opening a file comes to.  `raises` is an exception that is no `OSError`. -/
inductive Opened
  | ok
  | osError
  | raises (exc : PyExc)

/-- What the file system does with the paths of a configuration. -/
structure Files where
  /-- The directory and the `FileHandler` of a log. -/
  log : Text → Opened
  /-- `Path(path).expanduser()`. -/
  expanduser : Text → Except PyExc Text
  /-- The directory and the `touch` of an audit log. -/
  audit : Text → Opened

inductive Handler
  | stdout
  | file (path : Text)
  | other (name : Text)
  deriving DecidableEq

structure LoggingState where
  level : ℕ
  handlers : List Handler
  deriving DecidableEq

/-- `getattr(logging, level.upper(), logging.INFO)`, as `setLevel` takes it.  Two names of the
module are no levels. -/
def levelNumber (level : Text) : Except PyExc ℕ :=
  let name := level.upper
  if name = "CRITICAL".toList ∨ name = "FATAL".toList then .ok 50
  else if name = "ERROR".toList then .ok 40
  else if name = "WARNING".toList ∨ name = "WARN".toList then .ok 30
  else if name = "INFO".toList then .ok 20
  else if name = "DEBUG".toList then .ok 10
  else if name = "NOTSET".toList then .ok 0
  else if name = "BASIC_FORMAT".toList then .error (.other "ValueError".toList
    "Unknown level: '%(levelname)s:%(name)s:%(message)s'".toList)
  else if name = "_STYLES".toList then .error (.other "TypeError".toList
    "Level not an integer or a valid string".toList)
  else .ok 20

/-- `configure_logging`.  The old handlers are gone before anything can raise. -/
def configureLogging (files : Files) (root : LoggingState) (config : LoggingConfig) :
    LoggingState × Except PyExc Unit :=
  let root := { root with handlers := [] }
  match levelNumber config.level with
  | .error exc => (root, .error exc)
  | .ok level =>
    let root : LoggingState := ⟨level, [.stdout]⟩
    match files.log config.filePath with
    | .ok => (⟨level, [.stdout, .file config.filePath]⟩, .ok ())
    -- The file is left out, with a warning.
    | .osError => (root, .ok ())
    | .raises exc => (root, .error exc)

structure AuditLogger where
  enabled : Bool
  path : Option Text
  deriving DecidableEq

def AuditLogger.new (files : Files) (config : AuditConfig) : Except PyExc AuditLogger :=
  if config.filePath = [] ∨ config.enabled = false then .ok ⟨config.enabled, none⟩
  else do
    let path ← files.expanduser config.filePath
    match files.audit path with
    | .ok => .ok ⟨config.enabled, some path⟩
    | .osError => .ok ⟨config.enabled, none⟩
    | .raises exc => .error exc

structure TaskStore where
  path : Text
  file : Text
  deriving DecidableEq

/-- A `TaskManager`.  `workers` is the registry it holds, by its place in the list of all. -/
structure TaskManager where
  core : Manager
  store : TaskStore
  workers : ℕ
  audit : AuditLogger
  syncLimit : FifoSemaphore

inductive Scope
  | read | submit | cancel | admin
  deriving DecidableEq, Repr

structure AuthContext where
  keyId : String
  scopes : List Scope
  sourceIp : Option String

inductive Front
  | http
  | rpc (id : Json)

inductive SyncPhase
  | waiting (ticket : ℕ)
  | calling
  | ended

structure SyncCall where
  front : Front
  manager : ℕ
  context : AuthContext
  workerId : String
  prompt : Text
  timeoutSeconds : ℚ
  workingDirectory : Text
  idempotencyKey : Json
  phase : SyncPhase

/-- Where a call of a worker comes from: a row of a database, or a synchronous call of one of the
processes. -/
inductive Source
  | task (file : Text) (taskId : String)
  | sync (process j : ℕ)
  deriving DecidableEq

structure Admission where
  source : Source
  worker : WorkerConfig
  workingDirectory : Text

structure Dispatched where
  source : Source
  workerId : String
  workingDirectory : Option Text
  performer : Option WorkerConfig

/-- What outlives the process: the databases, and what was accepted and sent. -/
structure Site where
  disk : Text → World
  processes : ℕ
  admissions : List Admission
  dispatched : List Dispatched

def Site.write (site : Site) (file : Text) (world : World) : Site :=
  { site with disk := Function.update site.disk file world }

structure Load where
  files : Files
  config : AppConfig

/-- A reload that waits in the `stop` of the old manager. -/
structure PendingReload where
  front : Front
  context : AuthContext
  files : Files
  config : AppConfig
  audit : AuditLogger
  manager : ℕ

/-- The process: `app.state`, the root logger, and the objects they hold.  `registries` and
`managers` list those there have been since it began.  `latest` is the configuration that was put
in force last, and `earlier` are those before it. -/
structure App where
  config : AppConfig
  store : TaskStore
  workers : ℕ
  manager : ℕ
  audit : AuditLogger
  metrics : MetricsRegistry
  buckets : List ℚ
  logging : LoggingState
  registries : List WorkerRegistry
  managers : List TaskManager
  syncCalls : List SyncCall
  reloading : Option PendingReload
  closing : Bool
  latest : Load
  earlier : List Load
  site : Site
  manager_lt : manager < managers.length

namespace App

def current (app : App) : TaskManager := app.managers.get ⟨app.manager, app.manager_lt⟩

/-- The manager with its database.  The counters are shared. -/
def process (app : App) (m : TaskManager) : Process :=
  ⟨app.site.disk m.store.file, { m.core with metrics := app.metrics }⟩

def putManager (app : App) (k : ℕ) (m : TaskManager) : App :=
  { app with
    managers := app.managers.set k m
    manager_lt := by simpa using app.manager_lt }

def put (app : App) (k : ℕ) (m : TaskManager) (p : Process) : App :=
  { app.putManager k { m with core := p.mgr } with
    site := app.site.write m.store.file p.world
    metrics := p.mgr.metrics }

end App

/-- What can go wrong with a new database: opening it, or one of the writes of
`mark_recovering`, after which the last `lost` have not been made. -/
inductive Fault
  | opening (exc : PyExc)
  | starting (exc : PyExc) (lost : ℕ)

/-- `HTTPException` is kept apart, since the front ends treat it apart. -/
inductive Failure
  | python (exc : PyExc)
  /-- An exception of which the text is Python's own. -/
  | plain (className : Text)
  | http (statusCode : ℕ) (detail : Text) (scope : Option String)

/-- `TaskManager(store, ...)` and its `start`, on the database `w`: the process that gives, or the
database that is left when it raises. -/
def startManager (w : World) (config : AppConfig) (fault : Option Fault) (now : String) :
    Except (World × PyExc) Process :=
  match fault, Process.start w config.workers config.recovery config.limits now with
  | some (.opening exc), _ => .error (w, exc)
  | some (.starting exc lost), .ok p =>
    match w.crashed p.world lost with
    | some w' => .error (w', exc)
    | none => .error (w, exc)
  | _, .ok p => .ok p
  | _, .error exc => .error (w, exc)

def TaskManager.of (p : Process) (store : TaskStore) (workers : ℕ) (audit : AuditLogger)
    (limits : LimitsConfig) : TaskManager where
  core := p.mgr
  store := store
  workers := workers
  audit := audit
  syncLimit := .new limits.syncActiveTasks

variable (env : Environment)

def openStore (path : Text) : TaskStore := ⟨path, env.realFile path⟩

def createApp (files : Files) (root : LoggingState) (site : Site) (config : AppConfig)
    (now : String) : Except PyExc App :=
  match configureLogging files root config.logging with
  | (_, .error exc) => .error exc
  | (root, .ok ()) =>
    let store := openStore env config.sqlitePath
    match AuditLogger.new files config.audit,
      startManager (site.disk store.file) config none now with
    | .error exc, _ => .error exc
    | .ok _, .error (_, exc) => .error exc
    | .ok audit, .ok p => .ok
      { config := config
        store := store
        workers := 0
        manager := 0
        audit := audit
        metrics := .zero
        buckets := config.workerCallSecondsBuckets
        logging := root
        registries := [.new config.workers config.circuitBreaker]
        managers := [.of p store 0 audit config.limits]
        syncCalls := []
        reloading := none
        closing := false
        latest := ⟨files, config⟩
        earlier := []
        site := { site.write store.file p.world with processes := site.processes + 1 }
        manager_lt := Nat.one_pos }

inductive ReloadOutcome
  | raised (failure : Failure)
  | suspended
  | done

namespace App

def installManager (app : App) (pending : PendingReload) (fault : Option Fault) (now : String) :
    App × ReloadOutcome :=
  let app := { app with reloading := none }
  let config := pending.config
  let store := openStore env config.sqlitePath
  match startManager (app.site.disk store.file) config fault now with
  | .error (w, exc) => ({ app with site := app.site.write store.file w }, .raised (.python exc))
  | .ok p =>
    ({ app with
        config := config
        store := store
        workers := app.registries.length
        manager := app.managers.length
        audit := pending.audit
        registries := app.registries ++ [.new config.workers config.circuitBreaker]
        managers := app.managers ++
          [.of p store app.registries.length pending.audit config.limits]
        latest := ⟨pending.files, config⟩
        earlier := app.latest :: app.earlier
        site := app.site.write store.file p.world
        manager_lt := by simp }, .done)

def updateManager (app : App) (files : Files) (config : AppConfig) (audit : AuditLogger) : App :=
  { app.putManager app.manager { app.current with
      core := { app.current.core with
        workers := config.workers
        recovery := config.recovery
        limits := config.limits }
      workers := app.registries.length
      audit := audit } with
    config := config
    workers := app.registries.length
    audit := audit
    registries := app.registries ++ [.new config.workers config.circuitBreaker]
    latest := ⟨files, config⟩
    earlier := app.latest :: app.earlier }

/-- `_reload_config`, up to the `gather` of `stop` if it comes to that. -/
def reloadConfig (app : App) (front : Front) (ctx : AuthContext) (files : Files)
    (loaded : Except PyExc AppConfig) (fault : Option Fault) (now : String) : App × ReloadOutcome :=
  match loaded with
  | .error exc => (app, .raised (.python exc))
  | .ok config =>
    match configureLogging files app.logging config.logging with
    | (root, .error exc) => ({ app with logging := root }, .raised (.python exc))
    | (root, .ok ()) =>
      let app := { app with logging := root }
      match AuditLogger.new files config.audit with
      | .error exc => (app, .raised (.python exc))
      | .ok audit =>
        let m := app.current
        if config.sqlitePath ≠ app.config.sqlitePath then
          if m.core.hasActiveTasks then
            (app, .raised (.http 409
              "cannot reload state.sqlite_path while async tasks are active".toList none))
          else
            let pending : PendingReload := ⟨front, ctx, files, config, audit, app.manager⟩
            let app := app.put app.manager m (app.process m).stop
            -- Coroutines that are done may still wait for their callbacks.
            if m.core.background.isEmpty then app.installManager env pending fault now
            else ({ app with reloading := some pending }, .suspended)
        else (app.updateManager files config audit, .done)

/-- `_reload_config` after the `gather`. -/
def resumeReload (app : App) (pending : PendingReload) (fault : Option Fault) (now : String) :
    Option (App × ReloadOutcome) :=
  app.managers[pending.manager]?.bind fun m =>
    match m.core.gathering with
    | some gathered =>
      if gathered.all m.core.done then
        some ((app.put pending.manager m (app.process m).stopped).installManager env pending
          fault now)
      else none
    | none => none

end App

end WorkerBridge
