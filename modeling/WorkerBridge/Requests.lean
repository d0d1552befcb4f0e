import WorkerBridge.Footprint

namespace WorkerBridge

def Operation.scope : Operation → Scope
  | call .. => .submit
  | check _ => .read
  | cancel _ => .cancel
  | list => .read
  | reload => .admin

/-- What the payload of a `tools/call` asks for. -/
def Json.operation (env : Environment) : Json → Option Operation
  | .obj fields =>
    match fields.lookup "method".toList, Json.orElse (fields.lookup "params".toList) (.obj []) with
    | some (.str m), .obj params =>
      if m = "tools/call".toList then
        (toolNamed (toolName env params)).bind fun tool =>
          (tool.operation (Json.orElse (params.lookup "arguments".toList) (.obj []))).toOption
      else none
    | _, _ => none
  | _ => none

def Request.operation (env : Environment) : Request → Option Operation
  | http request => some request.operation
  | rpc payload => Json.operation env payload

/-- The answer to `worker_check`. -/
def Reply.checked : Reply → Option Response
  | answered _ (.ok (.check response)) => some response
  | _ => none

theorem HttpRequest.operation_scope (request : HttpRequest) :
    request.operation.scope = request.scope := by
  cases request <;> rfl

theorem Tool.operation_scope {tool : Tool} {args : Json} {operation : Operation}
    (h : tool.operation args = .ok operation) : operation.scope = tool.scope := by
  have hid : ∀ (f : Option String → Operation) (key : Text),
      (do let taskId ← argument args key; (taskIdOf taskId).map f) = .ok operation →
        ∃ id, operation = f id := by
    intro f key h
    cases harg : argument args key with
    | error failure =>
      rw [harg] at h
      cases h
    | ok taskId =>
      simp only [harg, bind, Except.bind] at h
      cases hid : taskIdOf taskId with
      | error failure =>
        rw [hid] at h
        cases h
      | ok id =>
        rw [hid] at h
        cases h
        exact ⟨id, rfl⟩
  cases tool with
  | workerCall =>
    unfold Tool.operation at h
    cases hw : argument args "worker_id".toList with
    | error failure =>
      simp only [hw, bind, Except.bind] at h
      cases h
    | ok workerId =>
      cases hp : argument args "prompt".toList with
      | error failure =>
        simp only [hw, hp, bind, Except.bind] at h
        cases h
      | ok prompt =>
        simp only [hw, hp, bind, Except.bind] at h
        cases h
        rfl
  | workerCheck =>
    obtain ⟨id, rfl⟩ := hid .check _ h
    rfl
  | workerList =>
    cases h
    rfl
  | workerCancel =>
    obtain ⟨id, rfl⟩ := hid .cancel _ h
    rfl
  | workerConfigReload =>
    cases h
    rfl

theorem AuthContext.require_ok {ctx : AuthContext} {scope : Scope}
    (h : ctx.require scope = .ok ()) : scope ∈ ctx.scopes := by
  unfold require at h
  split at h
  · next hmem => exact hmem
  · cases h

namespace App

variable {env : Environment} {app app' : App} {ctx : AuthContext} {inputs : Inputs}

/-- A request is refused or fails with the application as it was, or it asks for an operation and
has the scope for it. -/
inductive Handles (env : Environment) (app : App) (request : Request) (ctx : AuthContext)
    (inputs : Inputs) (out : App × Reply) : Prop
  | idle (happ : out.1 = app) (hreply : out.2.checked = none)
  | operates (front : Front) (operation : Operation)
    (hop : request.operation env = some operation) (hscope : operation.scope ∈ ctx.scopes)
    (hout : out = app.operate env front ctx operation inputs)

theorem handleHttp_handles (request : HttpRequest) :
    Handles env app (.http request) ctx inputs (app.handleHttp env request ctx inputs) := by
  unfold handleHttp
  split
  · exact .idle rfl rfl
  · next hreq =>
    have hscope := request.operation_scope ▸ AuthContext.require_ok hreq
    split
    · split
      · exact .operates .http _ rfl hscope rfl
      · exact .idle rfl rfl
    · exact .operates .http _ rfl hscope rfl

theorem callTool_handles {id : Json} {params : List (Text × Json)} {payload : Json}
    (hpayload : Json.operation env payload = (toolNamed (toolName env params)).bind fun tool =>
      (tool.operation (Json.orElse (params.lookup "arguments".toList) (.obj []))).toOption) :
    Handles env app (.rpc payload) ctx inputs (app.callTool env id ctx params inputs) := by
  unfold callTool
  simp only
  split
  · exact .idle rfl rfl
  · exact .idle rfl rfl
  · next tool hreq htool =>
    split
    · exact .idle rfl rfl
    · next operation hop =>
      refine .operates (.rpc id) operation ?_ ?_ rfl
      · show Json.operation env payload = _
        rw [hpayload, htool, Option.bind_some, hop]
        rfl
      · have hscope := AuthContext.require_ok hreq
        rw [scopeForTool, htool] at hscope
        exact Tool.operation_scope hop ▸ hscope

theorem handleJsonrpc_handles (payload : Json) :
    Handles env app (.rpc payload) ctx inputs (app.handleJsonrpc env payload ctx inputs) := by
  unfold handleJsonrpc
  split
  · next fields =>
    simp only
    split
    · next m hmethod =>
      split
      · unfold describe
        split <;> exact .idle rfl rfl
      · split
        · next htools =>
          split
          · next params hparams =>
            refine callTool_handles ?_
            have hm : fields.lookup "method".toList = some (.str m) := by
              cases hl : fields.lookup "method".toList with
              | none =>
                rw [hl] at hmethod
                cases hmethod
              | some value =>
                rw [hl] at hmethod
                exact congrArg some hmethod
            simp only [Json.operation, hm, hparams, if_pos htools]
          · exact .idle rfl rfl
        · exact .idle rfl rfl
    · exact .idle rfl rfl
  · exact .idle rfl rfl

theorem handle_handles (request : Request) :
    Handles env app request ctx inputs (app.handle env request ctx inputs) := by
  cases request with
  | http request => exact handleHttp_handles request
  | rpc payload => exact handleJsonrpc_handles payload

theorem handle_of_lacking {request : Request}
    (h : ∀ operation, request.operation env = some operation → operation.scope ∉ ctx.scopes) :
    (app.handle env request ctx inputs).1 = app := by
  have hcases : Handles env app request ctx inputs (app.handle env request ctx inputs) :=
    handle_handles request
  cases hcases with
  | idle happ _ => exact happ
  | operates front operation hop hscope _ => exact absurd hscope (h operation hop)

/-- A request that was accepted for a synchronous call. -/
def admitSync (app : App) (worker : WorkerConfig) (workingDirectory : Text) : App :=
  { app with site := { app.site with
      admissions := ⟨.sync app.site.processes app.syncCalls.length, worker, workingDirectory⟩ ::
        app.site.admissions } }

def syncCall (app : App) (front : Front) (ctx : AuthContext) (worker : WorkerConfig)
    (workerId : String) (prompt : Text) (key : Json) (workingDirectory : Text) (phase : SyncPhase) :
    SyncCall where
  front := front
  manager := app.manager
  context := ctx
  workerId := workerId
  prompt := prompt
  timeoutSeconds := worker.timeoutLimits.syncSeconds
  workingDirectory := workingDirectory
  idempotencyKey := key
  phase := phase

/-- The limit of the manager, and the list of calls, with another. -/
def withSync (app : App) (limit : FifoSemaphore) (call : SyncCall) : App :=
  { app.putManager app.manager { app.current with syncLimit := limit } with
    syncCalls := app.syncCalls ++ [call] }

theorem callSync_ok {front : Front} {worker : WorkerConfig} {workerId : String} {prompt : Text}
    {key : Json} {workingDirectory : Text} {active : ℕ} {out : App × Option ToolResult}
    (h : app.callSync front ctx worker workerId prompt key workingDirectory active = .ok out) :
    (app.current.syncLimit.locked = true ∧
      out = ((app.admitSync worker workingDirectory).withSync app.current.syncLimit.enqueue
        (app.syncCall front ctx worker workerId prompt key workingDirectory
          (.waiting app.current.syncLimit.tickets)), none)) ∨
    (app.current.syncLimit.locked = false ∧
      out = (((app.admitSync worker workingDirectory).withSync app.current.syncLimit.take
        (app.syncCall front ctx worker workerId prompt key workingDirectory .calling)).sendSync
          app.syncCalls.length
          (app.syncCall front ctx worker workerId prompt key workingDirectory .calling), none)) := by
  have hfull : ∀ {c : Prop} [Decidable c] {e : Failure}
      {x : Except Failure (App × Option ToolResult)},
      (if c then .error e else x) = .ok out → x = .ok out := by
    intro c _ e x hx
    split at hx
    · cases hx
    · exact hx
  unfold callSync at h
  simp only at h
  replace h := hfull h
  split at h
  · next hlocked =>
    cases h
    exact Or.inl ⟨hlocked, rfl⟩
  · next hlocked =>
    cases h
    exact Or.inr ⟨eq_false_of_ne_true hlocked, rfl⟩

/-- What `callManager` comes to unless it raises.  The worker is one of the current manager, and
the directory one that it may use. -/
inductive Calls (env : Environment) (app : App) (front : Front) (ctx : AuthContext)
    (inputs : Inputs) (out : App × Option ToolResult) : Prop
  | refused (response : Response) (hout : out = (app, some (.call response)))
  | sync (workerId : String) (prompt : Text) (key : Json) (worker : WorkerConfig)
    (directory : Text) (hworker : app.current.core.worker workerId = .ok worker)
    (hdirectory : resolveWorkingDirectory env.host worker prompt = .ok directory)
    (hcall : app.callSync front ctx worker workerId prompt key directory inputs.active = .ok out)
  | async (request : CallRequest) (worker : WorkerConfig) (directory : Text) (p : Process)
    (response : Response) (hworker : app.current.core.worker request.workerId = .ok worker)
    (hdirectory : resolveWorkingDirectory env.host worker request.prompt = .ok directory)
    (hcall : (app.process app.current).call env.host request inputs.taskId inputs.now =
      .ok (p, response))
    (hout : out = (app.accept p inputs.taskId worker directory, some (.call response)))

theorem callManager_calls {front : Front} {workerId prompt mode key : Json}
    {out : App × Option ToolResult}
    (h : app.callManager env front ctx workerId prompt mode key inputs = .ok out) :
    Calls env app front ctx inputs out := by
  unfold callManager at h
  simp only at h
  split at h
  · cases h
  · cases h
  · cases h
  · cases h
  · cases h
  · split at h
    · cases h
    · next worker prompt hworker =>
      split at h
      · cases h
      · next directory hdirectory =>
        split at h
        · cases h
          exact .refused _ rfl
        · split at h
          · cases h
            exact .refused _ rfl
          · exact .sync _ prompt key worker directory hworker hdirectory h
        · split at h
          · cases h
            exact .refused _ rfl
          · split at h
            · cases h
            · cases h
            · split at h
              · cases h
              · next p response hcall =>
                cases h
                exact .async ⟨_, prompt, _⟩ worker directory p response hworker hdirectory hcall rfl
    · cases h

/-- The application with a manager that has just started. -/
def installed (env : Environment) (app : App) (pending : PendingReload) (p : Process) : App :=
  { app with
    config := pending.config
    store := openStore env pending.config.sqlitePath
    workers := app.registries.length
    manager := app.managers.length
    audit := pending.audit
    registries := app.registries ++ [.new pending.config.workers pending.config.circuitBreaker]
    managers := app.managers ++ [.of p (openStore env pending.config.sqlitePath)
      app.registries.length pending.audit pending.config.limits]
    reloading := none
    latest := ⟨pending.files, pending.config⟩
    earlier := app.latest :: app.earlier
    site := app.site.write (openStore env pending.config.sqlitePath).file p.world
    manager_lt := by simp }

theorem installManager_cases (env : Environment) (app : App) (pending : PendingReload)
    (fault : Option Fault) (now : String) :
    (∃ w exc, startManager (app.site.disk (openStore env pending.config.sqlitePath).file)
        pending.config fault now = .error (w, exc) ∧
      app.installManager env pending fault now = ({ app with
        reloading := none
        site := app.site.write (openStore env pending.config.sqlitePath).file w },
          .raised (.python exc))) ∨
    ∃ p, startManager (app.site.disk (openStore env pending.config.sqlitePath).file)
        pending.config fault now = .ok p ∧
      app.installManager env pending fault now = (app.installed env pending p, .done) := by
  unfold installManager
  simp only
  cases hs : startManager (app.site.disk (openStore env pending.config.sqlitePath).file)
    pending.config fault now with
  | error out =>
    obtain ⟨w, exc⟩ := out
    exact Or.inl ⟨w, exc, rfl, rfl⟩
  | ok p => exact Or.inr ⟨p, rfl, rfl⟩

def logged (app : App) (root : LoggingState) : App := { app with logging := root }

/-- The application whose current manager is being stopped. -/
def halting (app : App) : App := app.put app.manager app.current (app.process app.current).stop

/-- What each call of `_reload_config` does before it waits or ends. -/
inductive Reloads (env : Environment) (app : App) (front : Front) (ctx : AuthContext)
    (files : Files) (fault : Option Fault) (now : String) :
    Except PyExc AppConfig → App × ReloadOutcome → Prop
  | unloaded (exc : PyExc) :
    Reloads env app front ctx files fault now (.error exc) (app, .raised (.python exc))
  | unlogged (config : AppConfig) (root : LoggingState) (exc : PyExc)
    (hlog : configureLogging files app.logging config.logging = (root, .error exc)) :
    Reloads env app front ctx files fault now (.ok config) (app.logged root, .raised (.python exc))
  | unaudited (config : AppConfig) (root : LoggingState) (exc : PyExc)
    (hlog : configureLogging files app.logging config.logging = (root, .ok ()))
    (haudit : AuditLogger.new files config.audit = .error exc) :
    Reloads env app front ctx files fault now (.ok config) (app.logged root, .raised (.python exc))
  | refused (config : AppConfig) (root : LoggingState) (audit : AuditLogger)
    (hlog : configureLogging files app.logging config.logging = (root, .ok ()))
    (haudit : AuditLogger.new files config.audit = .ok audit)
    (hpath : config.sqlitePath ≠ app.config.sqlitePath)
    (hactive : app.current.core.hasActiveTasks = true) :
    Reloads env app front ctx files fault now (.ok config) (app.logged root, .raised (.http 409
      "cannot reload state.sqlite_path while async tasks are active".toList none))
  | installs (config : AppConfig) (root : LoggingState) (audit : AuditLogger)
    (hlog : configureLogging files app.logging config.logging = (root, .ok ()))
    (haudit : AuditLogger.new files config.audit = .ok audit)
    (hpath : config.sqlitePath ≠ app.config.sqlitePath)
    (hactive : app.current.core.hasActiveTasks = false)
    (hempty : app.current.core.background.isEmpty = true) :
    Reloads env app front ctx files fault now (.ok config)
      ((app.logged root).halting.installManager env
        ⟨front, ctx, files, config, audit, app.manager⟩ fault now)
  | waits (config : AppConfig) (root : LoggingState) (audit : AuditLogger)
    (hlog : configureLogging files app.logging config.logging = (root, .ok ()))
    (haudit : AuditLogger.new files config.audit = .ok audit)
    (hpath : config.sqlitePath ≠ app.config.sqlitePath)
    (hactive : app.current.core.hasActiveTasks = false)
    (hempty : app.current.core.background.isEmpty = false) :
    Reloads env app front ctx files fault now (.ok config)
      ({ (app.logged root).halting with
        reloading := some ⟨front, ctx, files, config, audit, app.manager⟩ }, .suspended)
  | updates (config : AppConfig) (root : LoggingState) (audit : AuditLogger)
    (hlog : configureLogging files app.logging config.logging = (root, .ok ()))
    (haudit : AuditLogger.new files config.audit = .ok audit)
    (hpath : config.sqlitePath = app.config.sqlitePath) :
    Reloads env app front ctx files fault now (.ok config)
      ((app.logged root).updateManager files config audit, .done)

theorem reloadConfig_reloads (env : Environment) (app : App) (front : Front) (ctx : AuthContext)
    (files : Files) (loaded : Except PyExc AppConfig) (fault : Option Fault) (now : String) :
    Reloads env app front ctx files fault now loaded
      (app.reloadConfig env front ctx files loaded fault now) := by
  unfold reloadConfig
  cases loaded with
  | error exc => exact .unloaded exc
  | ok config =>
    simp only
    split
    · next root exc hlog => exact .unlogged config root exc hlog
    · next root hlog =>
      split
      · next exc haudit => exact .unaudited config root exc hlog haudit
      · next audit haudit =>
        split
        · next hpath =>
          split
          · next hactive => exact .refused config root audit hlog haudit hpath hactive
          · next hactive =>
            have hidle : app.current.core.hasActiveTasks = false := eq_false_of_ne_true hactive
            split
            · next hempty => exact .installs config root audit hlog haudit hpath hidle hempty
            · next hempty =>
              exact .waits config root audit hlog haudit hpath hidle (eq_false_of_ne_true hempty)
        · next hpath => exact .updates config root audit hlog haudit (not_not.mp hpath)

def opened (env : Environment) (files : Files) (root : LoggingState) (site : Site)
    (config : AppConfig) (audit : AuditLogger) (p : Process) : App where
  config := config
  store := openStore env config.sqlitePath
  workers := 0
  manager := 0
  audit := audit
  metrics := .zero
  buckets := config.workerCallSecondsBuckets
  logging := root
  registries := [.new config.workers config.circuitBreaker]
  managers := [.of p (openStore env config.sqlitePath) 0 audit config.limits]
  syncCalls := []
  reloading := none
  closing := false
  latest := ⟨files, config⟩
  earlier := []
  site := { site.write (openStore env config.sqlitePath).file p.world with
    processes := site.processes + 1 }
  manager_lt := Nat.one_pos

theorem createApp_ok {env : Environment} {files : Files} {root : LoggingState} {site : Site}
    {config : AppConfig} {now : String} {app : App}
    (h : createApp env files root site config now = .ok app) : ∃ root' audit p,
    configureLogging files root config.logging = (root', .ok ()) ∧
    AuditLogger.new files config.audit = .ok audit ∧
    startManager (site.disk (openStore env config.sqlitePath).file) config none now = .ok p ∧
    app = opened env files root' site config audit p := by
  unfold createApp at h
  split at h
  · cases h
  · next root' hlog =>
    simp only at h
    split at h
    · cases h
    · cases h
    · next audit p haudit hstart =>
      cases h
      exact ⟨root', audit, p, hlog, haudit, hstart, rfl⟩

theorem current_at (app : App) : app.managers[app.manager]? = some app.current :=
  List.getElem?_eq_getElem app.manager_lt

theorem current_eq {m : TaskManager} (h : app.managers[app.manager]? = some m) :
    app.current = m :=
  Option.some.inj (app.current_at.symm.trans h)

theorem current_installed (env : Environment) (app : App) (pending : PendingReload)
    (p : Process) : (app.installed env pending p).current =
      .of p (openStore env pending.config.sqlitePath) app.registries.length pending.audit
        pending.config.limits :=
  current_eq List.getElem?_concat_length

theorem current_updateManager (app : App) (files : Files) (config : AppConfig)
    (audit : AuditLogger) :
    (app.updateManager files config audit).current = { app.current with
      core := { app.current.core with
        workers := config.workers
        recovery := config.recovery
        limits := config.limits }
      workers := app.registries.length
      audit := audit } :=
  current_eq (List.getElem?_set_self app.manager_lt)

theorem reloadReply_fst (front : Front) (out : App × ReloadOutcome) :
    (reloadReply front out).1 = out.1 := by
  obtain ⟨app, outcome⟩ := out
  cases outcome <;> rfl

theorem reloadReply_checked (front : Front) (out : App × ReloadOutcome) :
    (reloadReply front out).2.checked = none := by
  obtain ⟨app, outcome⟩ := out
  cases outcome with
  | raised failure =>
    show (Reply.answered front (front.reloadFailure failure)).checked = none
    unfold Front.reloadFailure
    split <;> rfl
  | suspended => rfl
  | done => rfl

theorem callFailure_checked (front : Front) (failure : Failure) :
    (Reply.answered front (front.callFailure failure)).checked = none := by
  unfold Front.callFailure
  split <;> first | rfl | (split <;> rfl)

/-- What each operation does to the application. -/
inductive Operates (env : Environment) (app : App) (front : Front) (ctx : AuthContext)
    (inputs : Inputs) : Operation → App → Prop
  | same (operation : Operation) : Operates env app front ctx inputs operation app
  | calls (workerId prompt mode key : Json) (out : App × Option ToolResult)
    (hcalls : Calls env app front ctx inputs out) :
    Operates env app front ctx inputs (.call workerId prompt mode key) out.1
  | cancels (taskId : String) :
    Operates env app front ctx inputs (.cancel (some taskId))
      (app.put app.manager app.current ((app.process app.current).cancel taskId inputs.now).1)
  | reloads (hidle : app.reloading = none) :
    Operates env app front ctx inputs .reload
      (app.reloadConfig env front ctx inputs.files inputs.loaded inputs.fault inputs.now).1

theorem operate_operates (env : Environment) (app : App) (front : Front) (ctx : AuthContext)
    (operation : Operation) (inputs : Inputs) :
    Operates env app front ctx inputs operation
      (app.operate env front ctx operation inputs).1 := by
  cases operation with
  | call workerId prompt mode key =>
    simp only [operate]
    split
    · exact .same _
    · next hcall => exact .calls workerId prompt mode key _ (callManager_calls hcall)
    · next hcall => exact .calls workerId prompt mode key _ (callManager_calls hcall)
  | check taskId => cases taskId <;> exact .same _
  | cancel taskId =>
    cases taskId with
    | none => exact .same _
    | some taskId => exact .cancels taskId
  | list => exact .same _
  | reload =>
    simp only [operate]
    split
    · exact .same _
    · next hidle =>
      rw [reloadReply_fst]
      exact .reloads (by simpa using hidle)

/-- A synchronous call that is over, and gives up its slot. -/
def endedSync (app : App) (j : ℕ) (call : SyncCall) (m : TaskManager) (metrics : MetricsRegistry) :
    App :=
  { app.putManager call.manager { m with syncLimit := m.syncLimit.release } with
    syncCalls := app.syncCalls.set j { call with phase := .ended }
    metrics := metrics }

/-- A step of a coroutine, with the calls it has made. -/
def ranTo (app : App) (k : ℕ) (m : TaskManager) (p : Process) : App :=
  { app.put k m p with
    site := { (app.put k m p).site with
      dispatched := sentBy m (app.process m) p ++ app.site.dispatched } }

inductive Does (env : Environment) (app : App) : AppEvent → App → Option Reply → Prop
  | idle (request : Request) (ctx : AuthContext) (inputs : Inputs) (reply : Reply)
    (hreply : reply.checked = none) : Does env app (.request request ctx inputs) app (some reply)
  | operates (request : Request) (ctx : AuthContext) (inputs : Inputs) (front : Front)
    (operation : Operation) (hop : request.operation env = some operation)
    (hscope : operation.scope ∈ ctx.scopes) (hfresh : app.fresh inputs.taskId) :
    Does env app (.request request ctx inputs) (app.operate env front ctx operation inputs).1
      (some (app.operate env front ctx operation inputs).2)
  | resumeSync (j : ℕ) (call : SyncCall) (m : TaskManager) (ticket : ℕ)
    (hcall : app.syncCalls[j]? = some call) (hm : app.managers[call.manager]? = some m)
    (hphase : call.phase = .waiting ticket) (hgranted : m.syncLimit.future ticket = some .granted) :
    Does env app (.resumeSync j)
      ((app.putManager call.manager { m with syncLimit := m.syncLimit.resume ticket }).sendSync
        j call) none
  | endSync (j : ℕ) (outcome : Except PyExc Json) (call : SyncCall) (m : TaskManager)
    (metrics : MetricsRegistry) (reply : Reply) (hcall : app.syncCalls[j]? = some call)
    (hm : app.managers[call.manager]? = some m) (hphase : call.phase = .calling)
    (hreply : reply.checked = none) :
    Does env app (.endSync j outcome) (app.endedSync j call m metrics) (some reply)
  | resumeReload (fault : Option Fault) (now : String) (pending : PendingReload) (m : TaskManager)
    (gathered : List ℕ) (hpending : app.reloading = some pending)
    (hm : app.managers[pending.manager]? = some m) (hgathering : m.core.gathering = some gathered)
    (hdone : gathered.all m.core.done = true) :
    Does env app (.resumeReload fault now)
      ((app.put pending.manager m (app.process m).stopped).installManager env pending fault now).1
      (some (reloadReply pending.front ((app.put pending.manager m
        (app.process m).stopped).installManager env pending fault now)).2)
  | background (k : ℕ) (action : Action) (m : TaskManager) (p : Process)
    (hm : app.managers[k]? = some m) (hco : action.ofCoroutine = true)
    (hact : (app.process m).act env.host action = some p) :
    Does env app (.background k action) (app.ranTo k m p) none
  | shutdown (m : TaskManager) (hm : app.managers[0]? = some m)
    (hreloading : app.reloading = none) :
    Does env app .shutdown { app.put 0 m (app.process m).stop with closing := true } none
  | stopped (m : TaskManager) (hm : app.managers[0]? = some m) :
    Does env app .stopped (app.put 0 m (app.process m).stopped) none

theorem step_does {event : AppEvent} {reply : Option Reply}
    (h : app.step env event = some (app', reply)) : Does env app event app' reply := by
  cases event with
  | request request ctx inputs =>
    simp only [step] at h
    split at h
    · next hopen =>
      cases h
      have hcases : Handles env app request ctx inputs (app.handle env request ctx inputs) :=
        handle_handles request
      generalize app.handle env request ctx inputs = out at hcases ⊢
      obtain ⟨app₁, reply₁⟩ := out
      cases hcases with
      | idle happ hreply =>
        cases happ
        exact .idle request ctx inputs reply₁ hreply
      | operates front operation hop hscope hout =>
        obtain rfl : app₁ = _ := congrArg Prod.fst hout
        obtain rfl : reply₁ = _ := congrArg Prod.snd hout
        exact .operates request ctx inputs front operation hop hscope hopen.2
    · cases h
  | resumeSync j =>
    obtain ⟨app₁, h₁, h⟩ := Option.map_eq_some_iff.mp h
    cases h
    obtain ⟨call, hcall, h₁⟩ := Option.bind_eq_some_iff.mp h₁
    obtain ⟨m, hm, h₁⟩ := Option.bind_eq_some_iff.mp h₁
    split at h₁
    · next ticket hphase =>
      split at h₁
      · next hgranted =>
        cases h₁
        exact .resumeSync j call m ticket hcall hm hphase hgranted
      · cases h₁
    · cases h₁
  | endSync j outcome =>
    obtain ⟨⟨app₁, r⟩, h₁, h⟩ := Option.map_eq_some_iff.mp h
    cases h
    obtain ⟨call, hcall, h₁⟩ := Option.bind_eq_some_iff.mp h₁
    obtain ⟨m, hm, h₁⟩ := Option.bind_eq_some_iff.mp h₁
    split at h₁
    · next hphase =>
      simp only at h₁
      split at h₁
      · cases h₁
        exact .endSync j _ call m _ _ hcall hm hphase (callFailure_checked _ _)
      · cases h₁
        exact .endSync j _ call m _ _ hcall hm hphase rfl
    · cases h₁
  | resumeReload fault now =>
    obtain ⟨pending, hpending, h⟩ := Option.bind_eq_some_iff.mp h
    obtain ⟨out, hout, h⟩ := Option.map_eq_some_iff.mp h
    obtain ⟨m, hm, hout⟩ := Option.bind_eq_some_iff.mp hout
    split at hout
    · next gathered hgathering =>
      split at hout
      · next hdone =>
        cases hout
        cases h
        show Does env app _ (reloadReply pending.front _).1 _
        rw [reloadReply_fst]
        exact .resumeReload fault now pending m gathered hpending hm hgathering hdone
      · cases hout
    · cases hout
  | background k action =>
    obtain ⟨app₁, h₁, h⟩ := Option.map_eq_some_iff.mp h
    cases h
    obtain ⟨m, hm, h₁⟩ := Option.bind_eq_some_iff.mp h₁
    split at h₁
    · next hco =>
      obtain ⟨p, hact, rfl⟩ := Option.map_eq_some_iff.mp h₁
      exact .background k action m p hm hco hact
    · cases h₁
  | shutdown =>
    obtain ⟨app₁, h₁, h⟩ := Option.map_eq_some_iff.mp h
    cases h
    obtain ⟨m, hm, h₁⟩ := Option.bind_eq_some_iff.mp h₁
    split at h₁
    · cases h₁
    · next hopen =>
      cases h₁
      have hreloading : app.reloading = none := by
        have hnot : ¬ app.reloading.isSome = true := fun hs => hopen (Or.inl hs)
        simpa using hnot
      exact .shutdown m hm hreloading
  | stopped =>
    obtain ⟨app₁, h₁, h⟩ := Option.map_eq_some_iff.mp h
    cases h
    obtain ⟨m, hm, h₁⟩ := Option.bind_eq_some_iff.mp h₁
    split at h₁
    · split at h₁
      · cases h₁
        exact .stopped m hm
      · cases h₁
    · cases h₁

end App

end WorkerBridge
