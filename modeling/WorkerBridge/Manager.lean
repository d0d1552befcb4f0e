import WorkerBridge.Metrics
import WorkerBridge.Permissions
import WorkerBridge.Store

/-!
# The task manager

`manager.py`, one function for each stretch of code between two awaits.  The
event loop runs such a stretch to its end, and `_lock` is never held across an
await, so these are the atomic steps of the program.  A coroutine of
`_run_task` can wait at three places: before it begins, in the recovery delay,
and in `workers.call`.
-/

namespace WorkerBridge

open TaskState

/-- The arguments of one `workers.call`, and the process that made it. -/
structure WorkerCall where
  lifetime : ℕ
  workerId : String
  prompt : Text
  timeoutSeconds : ℚ
  workingDirectory : Option Text
  taskId : String
  idempotencyKey : Option String
  dispatchAttemptId : Option String
  attemptNumber : ℕ
  recoveryAttempt : Bool

def sentCall (lifetime : ℕ) (task : TaskRecord) (recoveryAttempt : Bool) : WorkerCall where
  lifetime := lifetime
  workerId := task.workerId
  prompt := task.prompt
  timeoutSeconds := task.timeoutSeconds
  workingDirectory := task.workingDirectory
  taskId := task.taskId
  idempotencyKey := task.idempotencyKey
  dispatchAttemptId := task.dispatchAttemptId
  attemptNumber := task.attemptCount
  recoveryAttempt := recoveryAttempt

structure Answer where
  idempotencyKey : Option String
  taskId : String

/-- What outlives a process: the database, and what the outside has seen.
`past` holds the earlier contents of the database, the latest first. -/
structure World where
  store : Store
  past : List Store
  lifetimes : ℕ
  calls : List WorkerCall
  answers : List Answer

namespace World

def empty : World := ⟨Store.empty, [], 0, [], []⟩

def versions (w : World) : List Store := w.store :: w.past

def write (w : World) (store : Store) : World := { w with store := store, past := w.store :: w.past }

def upsert (w : World) (task : TaskRecord) : Except PyExc World :=
  (w.store.upsert task).map w.write

/-- The loop of `mark_recovering` over the rows it has read. -/
def markRecovering (w : World) (now : String) : List TaskRecord → Except PyExc (World × List TaskRecord)
  | [] => .ok (w, [])
  | task :: rest =>
    if task.state = pending then do
      let (w, updated) ← w.markRecovering now rest
      .ok (w, task :: updated)
    else do
      let task := Store.markRecovering task now
      let w ← w.upsert task
      let (w, updated) ← w.markRecovering now rest
      .ok (w, task :: updated)

end World

/-- Where a coroutine of `_run_task` stands.  In the recovery delay it holds the
row it read.  `reaped` is a finished one whose done callback has run. -/
inductive Phase
  | created
  | sleeping (task : TaskRecord)
  | calling
  | finished
  | reaped

def Phase.done : Phase → Bool
  | finished | reaped => true
  | created | sleeping _ | calling => false

structure Handle where
  taskId : String
  phase : Phase
  cancelRequested : Bool

/-- `cancel()`, which has no effect on a finished coroutine. -/
def Handle.cancel (h : Handle) : Handle :=
  if h.phase.done then h else { h with cancelRequested := true }

/-- `handles` lists every coroutine of the process; `background` is the
dictionary from task ids to their places in it.  `gathering` is what a
suspended `stop()` waits for. -/
structure Manager where
  workers : List WorkerConfig
  recovery : RecoveryConfig
  limits : LimitsConfig
  metrics : MetricsRegistry
  handles : List Handle
  background : List (String × ℕ)
  started : Bool
  gathering : Option (List ℕ)

namespace Manager

/-- `workers.get`.  The registry is a dictionary built from the list. -/
def worker (m : Manager) (workerId : String) : Except PyExc WorkerConfig :=
  match m.workers.reverse.find? fun w => decide (w.workerId = workerId) with
  | some w => .ok w
  | none => .error (.unknownWorker workerId)

def done (m : Manager) (i : ℕ) : Bool :=
  match m.handles[i]? with
  | some h => h.phase.done
  -- The dictionary holds no such place.
  | none => true

def hasActiveTasks (m : Manager) : Bool := m.background.any fun e => !m.done e.2

def activeCount (m : Manager) : ℕ := m.background.countP fun e => !m.done e.2

def backgroundGet (m : Manager) (taskId : String) : Option ℕ :=
  (Table.find Prod.fst m.background taskId).map Prod.snd

def backgroundSet (background : List (String × ℕ)) (taskId : String) (i : ℕ) : List (String × ℕ) :=
  match Table.find Prod.fst background taskId with
  | some _ => Table.replace Prod.fst background (taskId, i)
  | none => background ++ [(taskId, i)]

def backgroundPop (background : List (String × ℕ)) (taskId : String) : List (String × ℕ) :=
  background.filter fun e => decide (e.1 ≠ taskId)

def setPhase (m : Manager) (i : ℕ) (phase : Phase) : Manager :=
  { m with handles := m.handles.modify i fun h => { h with phase := phase } }

/-- `bg = _background.get(task_id)`, and `bg.cancel()` if there is one. -/
def cancelTracked (m : Manager) (taskId : String) : Manager :=
  { m with
    handles := match m.backgroundGet taskId with
      | some i => m.handles.modify i Handle.cancel
      | none => m.handles }

/-- The loop of `stop` that cancels every handle of the dictionary. -/
def cancelBackground (m : Manager) : Manager :=
  { m with
    handles := m.handles.mapIdx fun i h => if i ∈ m.background.map Prod.snd then h.cancel else h }

def track (m : Manager) (taskId : String) : Manager :=
  { m with
    handles := m.handles ++ [⟨taskId, .created, false⟩]
    background := backgroundSet m.background taskId m.handles.length }

def schedule (m : Manager) (task : TaskRecord) : Manager :=
  match m.backgroundGet task.taskId with
  | some i => if m.done i then m.track task.taskId else m
  | none => m.track task.taskId

def enforceAsyncLimits (m : Manager) (store : Store) (workerId : String) : Except PyExc Unit :=
  if store.countByStates queuedStates none ≥ m.limits.globalPendingTasks then
    .error (.saturation "global pending task queue is full".toList 503 "global_pending")
  else if store.countByStates queuedStates (some workerId) ≥ m.limits.perWorkerPendingTasks then
    .error (.saturation "worker pending task queue is full".toList 503 "worker_pending")
  else if m.activeCount ≥ m.limits.globalActiveTasks then
    .error (.saturation "global active task limit reached".toList 503 "global_active")
  else match m.limits.perWorkerActiveTasks with
    | none => .ok ()
    | some perWorkerActive =>
      if store.countByStates activeStates (some workerId) ≥ perWorkerActive then
        .error (.saturation "worker active task limit reached".toList 503 "worker_active")
      else .ok ()

def new (workers : List WorkerConfig) (recovery : RecoveryConfig) (limits : LimitsConfig) : Manager where
  workers := workers
  recovery := recovery
  limits := limits
  metrics := MetricsRegistry.zero
  handles := []
  background := []
  started := false
  gathering := none

end Manager

def recoveryAllowsReplay (recovery : RecoveryConfig) (task : TaskRecord) : Bool :=
  match recovery.policy with
  | .always => true
  | .idempotent =>
    match task.idempotencyKey with
    | some key => decide (key ≠ "")
    | none => false
  -- `start` asks about recovering rows only, so this is never true there.
  | .manual => decide (task.state = pending)

structure TaskResponse where
  taskId : String
  workerId : String
  workingDirectory : Option Text
  idempotencyKey : Option String
  dispatchAttemptId : Option String
  attemptCount : ℕ
  state : String
  result : Option Json
  error : Option Text
  createdAt : String
  updatedAt : String
  completedAt : Option String

def taskResponse (task : TaskRecord) : TaskResponse where
  taskId := task.taskId
  workerId := task.workerId
  workingDirectory := task.workingDirectory
  idempotencyKey := task.idempotencyKey
  dispatchAttemptId := task.dispatchAttemptId
  attemptCount := task.attemptCount
  state := task.state.value
  result := task.result
  error := task.error
  createdAt := task.createdAt
  updatedAt := task.updatedAt
  completedAt := task.completedAt

/-- `refused` is an answer whose `ok` is false. -/
inductive Response
  | task (response : TaskResponse)
  | refused (error : Text) (taskId : Option String)

structure CallRequest where
  workerId : String
  prompt : Text
  idempotencyKey : Option String

structure Process where
  world : World
  mgr : Manager

namespace Process

variable (p : Process)

def store : Store := p.world.store

def row (taskId : String) : Option TaskRecord := p.world.store.get taskId

def upsert (task : TaskRecord) : Except PyExc Process :=
  (p.world.upsert task).map fun w => { p with world := w }

def setPhase (i : ℕ) (phase : Phase) : Process := { p with mgr := p.mgr.setPhase i phase }

/-- `transition`, `upsert` and the completion counter. -/
def settle (task : TaskRecord) (target : TaskState) (now : String) (error : Option Text)
    (result : Option Json) : Except PyExc Process := do
  let updated ← task.transition target now error result
  let p ← p.upsert updated
  .ok { p with
    mgr := { p.mgr with
      metrics := p.mgr.metrics.incTaskCompleted updated.workerId updated.state } }

def failTerminal (taskId : String) (state : TaskState) (error : Text) (now : String) : Process :=
  match p.row taskId with
  | none => p
  | some latest =>
    if latest.state ∈ terminalStates then p
    else match p.settle latest state now (some error) none with
      | .ok p' => p'
      | .error _ => p

/-- The handlers of `_run_task` for `TimeoutError` and `Exception`. -/
def handleException (taskId : String) (exc : PyExc) (now : String) : Process :=
  if exc.isTimeoutError then
    p.failTerminal taskId timedOut (exc.str.orElse "worker timed out".toList) now
  else match p.row taskId with
    | none => p
    | some latest =>
      if latest.state ∈ terminalStates then p
      else
        -- A timeout is also told by its text.
        let message := exc.str.orElse exc.className
        let target := if message.lower.has "timeout".toList then timedOut else failed
        p.failTerminal taskId target message now

/-- The handler of `_run_task` for `CancelledError`. -/
def handleCancelled (taskId : String) (now : String) : Process :=
  match p.row taskId with
  | none => p
  | some latest =>
    if latest.state ∈ terminalStates then p
    else match p.settle latest cancelled now (some "background task cancelled".toList) none with
      | .ok p' => p'
      | .error _ => p

variable (host : Host)

def bindDirectory (task : TaskRecord) : Except PyExc (Process × TaskRecord) :=
  match task.workingDirectory with
  | some _ => .ok (p, task)
  | none => do
    let worker ← p.mgr.worker task.workerId
    let directory ← resolveWorkingDirectory host worker task.prompt
    let task := { task with workingDirectory := some directory }
    let p ← p.upsert task
    .ok (p, task)

/-- The part of `_run_task` from the end of the delay to `workers.call`. -/
def beginAttempt (task : TaskRecord) (attemptId now : String) :
    Except PyExc (Process × TaskRecord) := do
  let (p, task) ← p.bindDirectory host task
  let task ← if task.state = recovering then task.transition pending now none none else .ok task
  -- The row is stored as running before the worker is called.
  if task.state = pending then do
    let task ← (task.nextAttempt attemptId now).transition running now none none
    let p ← p.upsert task
    .ok (p, task)
  else .ok (p, task)

def callWorker (i : ℕ) (task : TaskRecord) (recoveryAttempt : Bool) : Process where
  world := { p.world with
    calls := sentCall p.world.lifetimes task recoveryAttempt :: p.world.calls }
  mgr := p.mgr.setPhase i .calling

def dispatch (i : ℕ) (task : TaskRecord) (attemptId now : String) : Process :=
  match p.beginAttempt host task attemptId now with
  | .ok (p', sent) => p'.callWorker i sent (decide (task.state = recovering))
  | .error exc => (p.handleException task.taskId exc now).setPhase i .finished

/-- `_run_task` from its first line. -/
def runTask (i : ℕ) (taskId attemptId now : String) : Process :=
  match p.row taskId with
  | none => p.setPhase i .finished
  | some task =>
    if task.state ∈ terminalStates then p.setPhase i .finished
    else if p.mgr.recovery.delaySeconds ≠ 0 ∧ task.state = recovering then
      p.setPhase i (.sleeping task)
    else p.dispatch host i task attemptId now

def complete (taskId : String) (result : Json) (now : String) : Process :=
  match p.row taskId with
  | none => p
  | some latest =>
    if latest.state ∈ terminalStates then p
    else match p.settle latest completed now none (some result) with
      | .ok p' => p'
      -- The `try` covers the transition and the write as well.
      | .error exc => p.handleException taskId exc now

/-- `call` in mode `async`, for the fresh id `taskId`.  A call that raises has
changed nothing. -/
def call (request : CallRequest) (taskId now : String) : Except PyExc (Process × Response) := do
  let worker ← p.mgr.worker request.workerId
  let workingDirectory ← resolveWorkingDirectory host worker request.prompt
  if Mode.async ∉ worker.allowedModes then
    .ok (p, .refused ("mode async is not allowed for worker ".toList ++ request.workerId.toList) none)
  else do
    -- The limits come before the key is looked up.
    p.mgr.enforceAsyncLimits p.store request.workerId
    let task := TaskRecord.new taskId request.workerId request.prompt (some workingDirectory)
      request.idempotencyKey worker.timeoutLimits.asyncSeconds now
    let (store, task, created) ← p.store.createOrGet task
    let answer : Answer := ⟨request.idempotencyKey, task.taskId⟩
    if created then
      let mgr := { p.mgr with metrics := p.mgr.metrics.incTaskCreated request.workerId .async }
      .ok (⟨{ p.world.write store with answers := answer :: p.world.answers }, mgr.schedule task⟩,
        .task (taskResponse task))
    else
      .ok (⟨{ p.world with answers := answer :: p.world.answers }, p.mgr⟩, .task (taskResponse task))

def check (taskId : String) : Response :=
  match p.row taskId with
  | none => .refused "task not found".toList (some taskId)
  | some task => .task (taskResponse task)

def cancel (taskId now : String) : Process × Response :=
  match p.row taskId with
  | none => (p, .refused "task not found".toList (some taskId))
  | some task =>
    if task.state ∈ terminalStates then (p, .task (taskResponse task))
    else
      -- The handle is cancelled before the transition is tried.
      let p' : Process := { p with mgr := p.mgr.cancelTracked taskId }
      match p'.settle task cancelled now (some "cancelled by caller".toList) none with
      | .ok q => (q, .task (taskResponse (task.moveTo cancelled now
          (some "cancelled by caller".toList) none)))
      | .error exc => (p', .refused exc.str (some taskId))

/-- The first part of `stop`.  With nothing in the dictionary it does not wait. -/
def stop : Process :=
  if p.mgr.background.isEmpty then
    { p with mgr := { p.mgr with background := [], started := false } }
  else
    { p with mgr := { p.mgr.cancelBackground with
        gathering := some (p.mgr.background.map Prod.snd) } }

def stopped : Process :=
  { p with mgr := { p.mgr with background := [], started := false, gathering := none } }

def reload (workers : List WorkerConfig) (recovery : RecoveryConfig) (limits : LimitsConfig) :
    Process :=
  { p with mgr := { p.mgr with workers := workers, recovery := recovery, limits := limits } }

/-- Whether `start` schedules a row that `mark_recovering` returned. -/
def startSchedules (recovery : RecoveryConfig) (task : TaskRecord) : Bool :=
  decide (task.state ∉ terminalStates) &&
    !(decide (task.state = recovering) && !recoveryAllowsReplay recovery task)

/-- A new process: the manager's constructor and `start`. -/
def start (w : World) (workers : List WorkerConfig) (recovery : RecoveryConfig)
    (limits : LimitsConfig) (now : String) : Except PyExc Process := do
  let (w, updated) ← w.markRecovering now (w.store.listByStates Store.recoverableStates)
  let mgr := { Manager.new workers recovery limits with started := true }
  .ok ⟨{ w with lifetimes := w.lifetimes + 1 },
    (updated.filter (startSchedules recovery)).foldl Manager.schedule mgr⟩

end Process

end WorkerBridge
