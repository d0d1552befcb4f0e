import WorkerBridge.Application

/-!
# The server

Both front ends of `server.py` over one application.  A request is taken up to where it suspends;
what is left of those that do, the steps of the coroutines and the end of the process come in any
order.  A request that finds the reload lock held has done nothing, and comes again.
-/

namespace WorkerBridge

namespace Scope

def value : Scope → Text
  | read => "read".toList
  | submit => "submit".toList
  | cancel => "cancel".toList
  | admin => "admin".toList

end Scope

def AuthContext.require (ctx : AuthContext) (scope : Scope) : Except Failure Unit :=
  if scope ∈ ctx.scopes then .ok ()
  else .error (.http 403 ("missing required scope: ".toList ++ scope.value) none)

/-- What a request asks for.  The arguments of a tool may be any JSON values; a task id that is no
string is no id of a row. -/
inductive Operation
  | call (workerId prompt mode idempotencyKey : Json)
  | check (taskId : Option String)
  | cancel (taskId : Option String)
  | list
  | reload

/-- What a request meets, besides the application: a new task id, the time, `active_count` of the
worker, the file system, the configuration file, and what happens to a new database. -/
structure Inputs where
  taskId : String
  now : String
  active : ℕ
  files : Files
  loaded : Except PyExc AppConfig
  fault : Option Fault

/-- A dictionary that a request is answered with.  `failed` is one of those the JSON-RPC front end
makes of exceptions, and `info` the answer to a method that only describes the server. -/
inductive ToolResult
  | call (response : Response)
  | sync (workerId : String) (result : Json)
  | check (response : Response)
  | cancel (response : Response)
  | listing
  | reloaded
  | info
  | failed (statusCode : Option ℕ) (error : Option Text) (message : Text) (scope : Option String)

inductive Reply
  | later
  | answered (front : Front) (answer : Except Failure ToolResult)

namespace PyExc

def isWorkingDirectoryError : PyExc → Bool
  | missingWorkingDirectory => true
  | invalidWorkingDirectory _ _ => true
  | _ => false

end PyExc

namespace Front

/-- The handlers around `manager.call`. -/
def callFailure : Front → Failure → Except Failure ToolResult
  | http, .python (.saturation message statusCode scope) =>
    .error (.http statusCode message (some scope))
  | rpc _, .python (.saturation message statusCode scope) =>
    .ok (.failed (some statusCode) (some "Saturated".toList) message (some scope))
  | http, .python exc =>
    if exc.isWorkingDirectoryError then .error (.http 400 exc.str none) else .error (.python exc)
  | rpc _, .python exc =>
    if exc.isWorkingDirectoryError then
      .ok (.failed (some 400) (some "Bad Request".toList) exc.str none)
    else .error (.python exc)
  | _, failure => .error failure

/-- The handlers around `_reload_config`. -/
def reloadFailure : Front → Failure → Except Failure ToolResult
  | http, failure => .error failure
  | rpc _, .http statusCode detail _ => .ok (.failed (some statusCode) none detail none)
  | rpc _, .python exc =>
    .ok (.failed none none ("configuration reload failed: ".toList ++ exc.str) none)
  | rpc _, failure => .error failure

end Front

def modeOf : Json → Option Mode
  | .str s =>
    if s = "sync".toList then some .sync
    else if s = "async".toList then some .async
    else none
  | _ => none

/-- The `idempotency_key` of a `TaskRecord`; `none` is its `ValidationError`. -/
def recordKey : Json → Option (Option String)
  | .null => some none
  | .str s => some (some (String.ofList s))
  | _ => none

namespace App

variable (env : Environment) (app : App)

def sendSync (j : ℕ) (call : SyncCall) : App :=
  { app with
    syncCalls := app.syncCalls.set j { call with phase := .calling }
    site := { app.site with
      dispatched := ⟨.sync app.site.processes j, call.workerId, some call.workingDirectory,
        app.managers[call.manager]?.bind fun m => WorkerRegistry.find m.core.workers call.workerId⟩ ::
          app.site.dispatched } }

/-- `TaskManager.call` in mode `sync`, from the limit to the first wait. -/
def callSync (front : Front) (ctx : AuthContext) (worker : WorkerConfig) (workerId : String)
    (prompt : Text) (key : Json) (workingDirectory : Text) (active : ℕ) :
    Except Failure (App × Option ToolResult) :=
  let m := app.current
  let full : Bool := match m.core.limits.perWorkerActiveTasks with
    | some perWorkerActive => decide (active ≥ perWorkerActive)
    | none => false
  if full then
    .error (.python (.saturation "worker sync capacity reached".toList 503 "worker_sync"))
  else
    let j := app.syncCalls.length
    let call (phase : SyncPhase) : SyncCall := ⟨front, app.manager, ctx, workerId, prompt,
      worker.timeoutLimits.syncSeconds, workingDirectory, key, phase⟩
    let accepted (app : App) : App :=
      { app with site := { app.site with
          admissions := ⟨.sync app.site.processes j, worker, workingDirectory⟩ :: app.site.admissions } }
    let app := accepted app
    -- `async with self._sync_limit`: a waiter is appended, or a slot taken at once.
    if m.syncLimit.locked then
      let app := app.putManager app.manager { m with syncLimit := m.syncLimit.enqueue }
      .ok ({ app with syncCalls := app.syncCalls ++ [call (.waiting m.syncLimit.tickets)] }, none)
    else
      let app := app.putManager app.manager { m with syncLimit := m.syncLimit.take }
      let app := { app with syncCalls := app.syncCalls ++ [call .calling] }
      .ok (app.sendSync j (call .calling), none)

/-- The application once the process `p` has accepted a task, or answered with a known one. -/
def accept (p : Process) (taskId : String) (worker : WorkerConfig) (workingDirectory : Text) :
    App :=
  let m := app.current
  let app := app.put app.manager m p
  if (p.row taskId).isSome then
    { app with site := { app.site with
        admissions := ⟨.task m.store.file taskId, worker, workingDirectory⟩ :: app.site.admissions } }
  else app

/-- `TaskManager.call`.  `none` in place of an answer is a wait. -/
def callManager (front : Front) (ctx : AuthContext) (workerId prompt mode key : Json)
    (inputs : Inputs) : Except Failure (App × Option ToolResult) :=
  let p := app.process app.current
  match workerId with
  -- No key of the dictionary: what cannot be hashed is a `TypeError`.
  | .arr _ | .obj _ => .error (.plain "TypeError".toList)
  | .null | .bool _ | .num _ => .error (.plain "KeyError".toList)
  | .str w =>
    let workerId := String.ofList w
    match p.mgr.worker workerId, prompt with
    | .error exc, _ => .error (.python exc)
    | .ok worker, .str prompt =>
      match resolveWorkingDirectory env.host worker prompt with
      | .error exc => .error (.python exc)
      | .ok workingDirectory =>
        let refused : ToolResult := .call (.refused ("mode ".toList ++ mode.pyStr env.repr ++
          " is not allowed for worker ".toList ++ w) none)
        match modeOf mode with
        | none => .ok (app, some refused)
        | some .sync =>
          if Mode.sync ∉ worker.allowedModes then .ok (app, some refused)
          else app.callSync front ctx worker workerId prompt key workingDirectory inputs.active
        | some .async =>
          if Mode.async ∉ worker.allowedModes then .ok (app, some refused)
          else match p.mgr.enforceAsyncLimits p.store workerId, recordKey key with
            | .error exc, _ => .error (.python exc)
            | .ok (), none => .error (.plain "ValidationError".toList)
            | .ok (), some key =>
              match p.call env.host ⟨workerId, prompt, key⟩ inputs.taskId inputs.now with
              | .error exc => .error (.python exc)
              | .ok (p', response) =>
                .ok (app.accept p' inputs.taskId worker workingDirectory, some (.call response))
    -- The pattern of the frontmatter is matched against a string.
    | .ok _, _ => .error (.plain "TypeError".toList)

def reloadReply (front : Front) : App × ReloadOutcome → App × Reply
  | (app, .raised failure) => (app, .answered front (front.reloadFailure failure))
  | (app, .suspended) => (app, .later)
  | (app, .done) => (app, .answered front (.ok .reloaded))

def operate (front : Front) (ctx : AuthContext) (operation : Operation) (inputs : Inputs) :
    App × Reply :=
  let p := app.process app.current
  match operation with
  | .call workerId prompt mode key =>
    match app.callManager env front ctx workerId prompt mode key inputs with
    | .error failure => (app, .answered front (front.callFailure failure))
    | .ok (app', none) => (app', .later)
    | .ok (app', some answer) => (app', .answered front (.ok answer))
  | .check none => (app, .answered front (.ok (.check (.refused "task not found".toList none))))
  | .check (some taskId) => (app, .answered front (.ok (.check (p.check taskId))))
  | .cancel none => (app, .answered front (.ok (.cancel (.refused "task not found".toList none))))
  | .cancel (some taskId) =>
    let (p', response) := p.cancel taskId inputs.now
    (app.put app.manager app.current p', .answered front (.ok (.cancel response)))
  | .list => (app, .answered front (.ok .listing))
  | .reload =>
    -- `reload_lock` is held: the request comes again once the other reload is over.
    if app.reloading.isSome then (app, .later)
    else reloadReply front
      (app.reloadConfig env front ctx inputs.files inputs.loaded inputs.fault inputs.now)

end App

structure WorkerCallRequest where
  workerId : String
  prompt : Text
  mode : Text
  idempotencyKey : Option String
  prompt_ne_nil : prompt ≠ []

/-- The endpoints that need a scope.  `look` is any of `/metrics`, `/status`, `/mcp`, `/tools` and
`/worker_list`. -/
inductive HttpRequest
  | workerCall (body : WorkerCallRequest)
  | workerCheck (taskId : String)
  | workerCancel (taskId : String)
  | reload
  | look

namespace HttpRequest

def scope : HttpRequest → Scope
  | workerCall _ => .submit
  | workerCheck _ => .read
  | workerCancel _ => .cancel
  | reload => .admin
  | look => .read

def operation : HttpRequest → Operation
  | workerCall body => .call (.str body.workerId.toList) (.str body.prompt) (.str body.mode)
      (match body.idempotencyKey with | some key => .str key.toList | none => .null)
  | workerCheck taskId => .check (some taskId)
  | workerCancel taskId => .cancel (some taskId)
  | reload => .reload
  | look => .list

end HttpRequest

namespace App

variable (env : Environment) (app : App)

def handleHttp (request : HttpRequest) (ctx : AuthContext) (inputs : Inputs) : App × Reply :=
  match ctx.require request.scope with
  | .error failure => (app, .answered .http (.error failure))
  | .ok () =>
    let operate := app.operate env .http ctx request.operation inputs
    match request with
    | .workerCall body =>
      if body.mode = "sync".toList ∨ body.mode = "async".toList then operate
      else (app, .answered .http (.error (.http 400 "mode must be sync or async".toList none)))
    | _ => operate

end App

inductive Tool
  | workerCall | workerCheck | workerList | workerCancel | workerConfigReload
  deriving DecidableEq

def toolNamed (name : Text) : Option Tool :=
  if name = "worker_call".toList then some .workerCall
  else if name = "worker_check".toList then some .workerCheck
  else if name = "worker_list".toList then some .workerList
  else if name = "worker_cancel".toList then some .workerCancel
  else if name = "worker_config_reload".toList then some .workerConfigReload
  else none

def Tool.scope : Tool → Scope
  | workerCall => .submit
  | workerCheck => .read
  | workerList => .read
  | workerCancel => .cancel
  | workerConfigReload => .admin

def scopeForTool (name : Text) : Scope :=
  match toolNamed name with
  | some tool => tool.scope
  | none => .read

def argument (args : Json) (key : Text) : Except Failure Json :=
  match args with
  | .obj fields =>
    match fields.lookup key with
    | some value => .ok value
    | none => .error (.plain "KeyError".toList)
  | _ => .error (.plain "TypeError".toList)

def argumentOr (args : Json) (key : Text) (default : Json) : Json := (args.item key).getD default

/-- A task id, as the database compares it with those of its rows. -/
def taskIdOf : Json → Except Failure (Option String)
  | .str s => .ok (some (String.ofList s))
  | .null | .bool _ | .num _ => .ok none
  | .arr _ | .obj _ => .error (.plain "InterfaceError".toList)

def Tool.operation (args : Json) : Tool → Except Failure Operation
  | workerCall => do
    let workerId ← argument args "worker_id".toList
    let prompt ← argument args "prompt".toList
    .ok (.call workerId prompt (argumentOr args "mode".toList (.str "sync".toList))
      (argumentOr args "idempotency_key".toList .null))
  | workerCheck => do
    let taskId ← argument args "task_id".toList
    (taskIdOf taskId).map .check
  | workerList => .ok .list
  | workerCancel => do
    let taskId ← argument args "task_id".toList
    (taskIdOf taskId).map .cancel
  | workerConfigReload => .ok .reload

/-- `str(params.get("name") or "")`. -/
def toolName (env : Environment) (params : List (Text × Json)) : Text :=
  (Json.orElse (params.lookup "name".toList) (.str [])).pyStr env.repr

namespace App

variable (env : Environment) (app : App)

def callTool (id : Json) (ctx : AuthContext) (params : List (Text × Json)) (inputs : Inputs) :
    App × Reply :=
  let name := toolName env params
  let args := Json.orElse (params.lookup "arguments".toList) (.obj [])
  match ctx.require (scopeForTool name), toolNamed name with
  | .error failure, _ => (app, .answered (.rpc id) (.error failure))
  | .ok (), none => (app, .answered (.rpc id)
      (.error (.python (.other "ValueError".toList ("unknown tool: ".toList ++ name)))))
  | .ok (), some tool =>
    match tool.operation args with
    | .error failure => (app, .answered (.rpc id) (.error failure))
    | .ok operation => app.operate env (.rpc id) ctx operation inputs

def describe (id : Json) (ctx : AuthContext) : App × Reply :=
  match ctx.require .read with
  | .error failure => (app, .answered (.rpc id) (.error failure))
  | .ok () => (app, .answered (.rpc id) (.ok .info))

def handleJsonrpc (payload : Json) (ctx : AuthContext) (inputs : Inputs) : App × Reply :=
  match payload with
  | .obj fields =>
    let id := (fields.lookup "id".toList).getD .null
    let method := (fields.lookup "method".toList).getD .null
    let params := Json.orElse (fields.lookup "params".toList) (.obj [])
    let unsupported : App × Reply := (app, .answered (.rpc id) (.error (.python
      (.other "ValueError".toList ("unsupported method: ".toList ++ method.pyStr env.repr)))))
    match method with
    | .str m =>
      if m = "initialize".toList ∨ m = "tools/list".toList then app.describe id ctx
      else if m = "tools/call".toList then
        match params with
        | .obj params => app.callTool env id ctx params inputs
        | _ => (app, .answered (.rpc id) (.error (.plain "AttributeError".toList)))
      else unsupported
    | _ => unsupported
  -- `payload.get` is outside the `try`.
  | _ => (app, .answered .http (.error (.plain "AttributeError".toList)))

end App

inductive Request
  | http (request : HttpRequest)
  | rpc (payload : Json)

inductive AppEvent
  | request (request : Request) (ctx : AuthContext) (inputs : Inputs)
  | resumeSync (j : ℕ)
  | endSync (j : ℕ) (outcome : Except PyExc Json)
  | resumeReload (fault : Option Fault) (now : String)
  | background (k : ℕ) (action : Action)
  | shutdown
  | stopped

/-- The actions of a manager that no request asks for. -/
def Action.ofCoroutine : Action → Bool
  | .resume .. | .workerReturned .. | .workerRaised .. | .throwCancelled .. | .doneCallback .. => true
  | .call .. | .check .. | .cancel .. | .stop | .stopped | .reload .. => false

namespace App

variable (env : Environment) (app : App)

def handle (request : Request) (ctx : AuthContext) (inputs : Inputs) : App × Reply :=
  match request with
  | .http request => app.handleHttp env request ctx inputs
  | .rpc payload => app.handleJsonrpc env payload ctx inputs

def resumeSync (j : ℕ) : Option App :=
  app.syncCalls[j]?.bind fun call => app.managers[call.manager]?.bind fun m =>
    match call.phase with
    | .waiting ticket =>
      if m.syncLimit.future ticket = some .granted then
        some ((app.putManager call.manager { m with
          syncLimit := m.syncLimit.resume ticket }).sendSync j call)
      else none
    | _ => none

def endSync (j : ℕ) (outcome : Except PyExc Json) : Option (App × Reply) :=
  app.syncCalls[j]?.bind fun call => app.managers[call.manager]?.bind fun m =>
    match call.phase with
    | .calling =>
      let app := app.putManager call.manager { m with syncLimit := m.syncLimit.release }
      let app := { app with syncCalls := app.syncCalls.set j { call with phase := .ended } }
      match outcome with
      | .error exc => some (app, .answered call.front (call.front.callFailure (.python exc)))
      | .ok result => some
          ({ app with metrics := app.metrics.incTaskCreated call.workerId .sync },
            .answered call.front (.ok (.sync call.workerId result)))
    | _ => none

/-- The calls of workers that a step of a manager has made. -/
def sentBy (m : TaskManager) (p p' : Process) : List Dispatched :=
  (p'.world.calls.take (p'.world.calls.length - p.world.calls.length)).map fun c =>
    ⟨.task m.store.file c.taskId, c.workerId, c.workingDirectory,
      WorkerRegistry.find m.core.workers c.workerId⟩

/-- A step of a coroutine of the manager at the place `k`. -/
def background (k : ℕ) (action : Action) : Option App :=
  app.managers[k]?.bind fun m =>
    if action.ofCoroutine then
      (Process.act (app.process m) env.host action).map fun p =>
        let app' := app.put k m p
        { app' with site := { app'.site with
            dispatched := sentBy m (app.process m) p ++ app'.site.dispatched } }
    else none

/-- The end of the lifespan stops the first manager.  The server has answered its requests by
then. -/
def shutdown : Option App :=
  app.managers[0]?.bind fun m =>
    if app.reloading.isSome ∨ app.closing then none
    else some { app.put 0 m (app.process m).stop with closing := true }

def stopped : Option App :=
  app.managers[0]?.bind fun m =>
    match m.core.gathering with
    | some gathered =>
      if app.closing ∧ gathered.all m.core.done then some (app.put 0 m (app.process m).stopped)
      else none
    | none => none

def fresh (taskId : String) : Prop := (app.process app.current).row taskId = none

instance (taskId : String) : Decidable (app.fresh taskId) :=
  inferInstanceAs (Decidable ((app.process app.current).row taskId = none))

def step : AppEvent → Option (App × Option Reply)
  | .request request ctx inputs =>
    if app.closing = false ∧ app.fresh inputs.taskId then
      let (app', reply) := app.handle env request ctx inputs
      some (app', some reply)
    else none
  | .resumeSync j => (app.resumeSync j).map fun app' => (app', none)
  | .endSync j outcome => (app.endSync j outcome).map fun (app', reply) => (app', some reply)
  | .resumeReload fault now =>
    app.reloading.bind fun pending =>
      (app.resumeReload env pending fault now).map fun outcome =>
        let (app', reply) := reloadReply pending.front outcome
        (app', some reply)
  | .background k action => (app.background env k action).map fun app' => (app', none)
  | .shutdown => app.shutdown.map fun app' => (app', none)
  | .stopped => app.stopped.map fun app' => (app', none)

end App

/-- What is left of a step that a crash cuts short: of the writes to each database all but the
last `lost`. -/
def Site.crashed (site site' : Site) (lost : Text → ℕ) : Site where
  disk file := ((site.disk file).crashed (site'.disk file) (lost file)).getD (site.disk file)
  processes := site'.processes
  admissions := site'.admissions
  dispatched := site.dispatched

inductive Server
  | down (site : Site)
  | up (app : App)

/-- `start` gives what the new process finds: the root logger and the configuration. -/
inductive ServerEvent
  | start (files : Files) (root : LoggingState) (config : AppConfig) (now : String)
  | startCrash (files : Files) (root : LoggingState) (config : AppConfig) (now : String)
      (lost : Text → ℕ)
  | act (event : AppEvent)
  | actCrash (event : AppEvent) (lost : Text → ℕ)
  | crash

namespace Server

variable (env : Environment)

def site : Server → Site
  | down site => site
  | up app => app.site

def created (files : Files) (root : LoggingState) (site : Site) (config : AppConfig)
    (now : String) : Option App :=
  match createApp env files root site config now with
  | .ok app => some app
  | .error _ => none

variable {env} in
theorem created_eq_some {files : Files} {root : LoggingState} {site : Site} {config : AppConfig}
    {now : String} {app : App} : created env files root site config now = some app ↔
      createApp env files root site config now = .ok app := by
  unfold created
  cases createApp env files root site config now with
  | error exc => simp
  | ok app' => simp

def step : Server → ServerEvent → Option Server
  | down site, .start files root config now => (created env files root site config now).map up
  | down site, .startCrash files root config now lost =>
    (created env files root site config now).map fun app => down (site.crashed app.site lost)
  | up app, .act event => (app.step env event).map fun out => up out.1
  | up app, .actCrash event lost =>
    (app.step env event).map fun out => down (app.site.crashed out.1.site lost)
  | up app, .crash => some (down app.site)
  | _, _ => none

inductive Steps : Server → ServerEvent → Server → Prop
  | started (site : Site) (files : Files) (root : LoggingState) (config : AppConfig) (now : String)
      (app : App) (h : created env files root site config now = some app) :
      Steps (down site) (.start files root config now) (up app)
  | startCrashed (site : Site) (files : Files) (root : LoggingState) (config : AppConfig)
      (now : String) (lost : Text → ℕ) (app : App)
      (h : created env files root site config now = some app) :
      Steps (down site) (.startCrash files root config now lost) (down (site.crashed app.site lost))
  | acted (app : App) (event : AppEvent) (app' : App) (reply : Option Reply)
      (h : app.step env event = some (app', reply)) : Steps (up app) (.act event) (up app')
  | actCrashed (app : App) (event : AppEvent) (lost : Text → ℕ) (app' : App) (reply : Option Reply)
      (h : app.step env event = some (app', reply)) :
      Steps (up app) (.actCrash event lost) (down (app.site.crashed app'.site lost))
  | crashed (app : App) : Steps (up app) .crash (down app.site)

variable {env} in
theorem step_steps {s s' : Server} {e : ServerEvent} (h : step env s e = some s') :
    Steps env s e s' := by
  cases s with
  | down site =>
    cases e with
    | start files root config now =>
      obtain ⟨app, happ, rfl⟩ := Option.map_eq_some_iff.mp h
      exact .started _ _ _ _ _ app happ
    | startCrash files root config now lost =>
      obtain ⟨app, happ, rfl⟩ := Option.map_eq_some_iff.mp h
      exact .startCrashed _ _ _ _ _ _ app happ
    | act | actCrash | crash => cases h
  | up app =>
    cases e with
    | start | startCrash => cases h
    | act event =>
      obtain ⟨⟨app', reply⟩, happ, rfl⟩ := Option.map_eq_some_iff.mp h
      exact .acted _ _ _ reply happ
    | actCrash event lost =>
      obtain ⟨⟨app', reply⟩, happ, rfl⟩ := Option.map_eq_some_iff.mp h
      exact .actCrashed _ _ _ _ reply happ
    | crash =>
      cases h
      exact .crashed app

/-- Every run begins with the databases `disk` and no process. -/
def machine (disk : Text → World) : Runs.Machine Server ServerEvent :=
  ⟨down ⟨disk, 0, [], []⟩, step env⟩

def running (test : App → Bool) : Server → Bool
  | down _ => false
  | up app => test app

theorem exists_running (disk : Text → World) (events : List ServerEvent) (test : App → Bool)
    (h : ((machine env disk).run Runs.anyStep (machine env disk).start events).map
      (running test) = some true) :
    ∃ app, (machine env disk).Reachable Runs.anyStep (up app) ∧ test app = true := by
  obtain ⟨s, hs, hp⟩ := Runs.Machine.exists_reachable_of_run (machine env disk) Runs.anyStep events
    (running test) h
  cases s with
  | down site => cases hp
  | up app => exact ⟨app, hs, hp⟩

end Server

namespace Sample

def environment : Environment := ⟨host, id, fun _ => []⟩

def files : Files := ⟨fun _ => .ok, .ok, fun _ => .ok⟩

def root : LoggingState := ⟨30, []⟩

def appConfig (sqlitePath : Text) : AppConfig where
  sqlitePath := sqlitePath
  logging := ⟨"INFO".toList, "/log".toList⟩
  audit := ⟨true, "/audit".toList⟩
  workerCallSecondsBuckets := [1]
  circuitBreaker := breaker
  recovery := ⟨.manual, 0⟩
  limits := limits none unlimited
  workers := workers
  buckets_ne_nil := by decide
  buckets_increasing := by decide
  workerIds_unique := by decide

def operator : AuthContext := ⟨"k", [.read, .submit, .cancel, .admin], none⟩

def inputs (taskId : String) (loaded : Except PyExc AppConfig) : Inputs :=
  ⟨taskId, "t1", 0, files, loaded, none⟩

def start (config : AppConfig) : ServerEvent := .start files root config "t0"

def toolCall (name : Text) (arguments : List (Text × Json)) : Request :=
  .rpc (.obj [("method".toList, .str "tools/call".toList),
    ("params".toList, .obj [("name".toList, .str name), ("arguments".toList, .obj arguments)])])

def submit (ctx : AuthContext) (taskId : String) : AppEvent :=
  .request (toolCall "worker_call".toList [("worker_id".toList, .str "w".toList),
    ("prompt".toList, .str prompt), ("mode".toList, .str "async".toList)]) ctx
    (inputs taskId (.error (.other [] [])))

def reload (ctx : AuthContext) (config : AppConfig) : AppEvent :=
  .request (.http .reload) ctx (inputs "r" (.ok config))

end Sample

end WorkerBridge
