import WorkerBridge.Raising
import WorkerBridge.Server

namespace WorkerBridge

open TaskState Raising

structure AuditEvent where
  outcome : String
  actor : Option String
  sourceIp : Option String
  workerId : String
  taskId : String

/-- A submission under way.  `transaction` is what the open transaction sees, and whether it has
written.  `faults` says of the next requests to SQLite and to the file system which of them raise;
one that raises has no effect. -/
structure Submission where
  process : Process
  registry : WorkerRegistry
  audit : AuditLogger
  trail : List AuditEvent
  transaction : Option (Store × Bool)
  faults : List (Option PyExc)

namespace Submission

abbrev Act (α : Type) := Raising Submission Failure α

def request : Act Unit := do
  match (← get).faults with
  | [] => pure ()
  | none :: rest => modify fun s => { s with faults := rest }
  | some exc :: rest => do
    modify fun s => { s with faults := rest }
    throw (.python exc)

def visible (s : Submission) : Store :=
  match s.transaction with
  | some (store, _) => store
  | none => s.process.store

def write (s : Submission) (store : Store) : Submission :=
  { s with process := { s.process with world := s.process.world.write store } }

def select {α : Type} (query : Store → α) : Act α := do
  request
  return query (← get).visible

/-- A statement that writes.  Outside a transaction it is one of its own. -/
def execute (statement : Store → Except PyExc Store) : Act Unit := do
  request
  let s ← get
  match statement s.visible with
  | .error exc => throw (.python exc)
  | .ok store =>
    if s.transaction.isSome then modify fun s => { s with transaction := some (store, true) }
    else modify fun s => s.write store

def beginImmediate : Act Unit := do
  request
  modify fun s => { s with transaction := some (s.process.store, false) }

def noTransaction (verb : String) : Failure :=
  .python (.other "OperationalError".toList
    ("cannot ".toList ++ verb.toList ++ " - no transaction is active".toList))

def commit : Act Unit := do
  request
  match (← get).transaction with
  | none => throw (noTransaction "commit")
  | some (store, written) =>
    modify fun s => { if written then s.write store else s with transaction := none }

def rollback : Act Unit := do
  request
  match (← get).transaction with
  | none => throw (noTransaction "rollback")
  | some _ => modify fun s => { s with transaction := none }

/-- `_connect`: the connection and its two `PRAGMA`s. -/
def connect : Act Unit := do
  request
  request
  request
  modify fun s => { s with transaction := none }

/-- `with self._lock, self._connect() as conn`.  Leaving it ends a transaction that is open. -/
def withConnection {α : Type} (body : Act α) : Act α := do
  connect
  let a ← tryCatch body fun failure => do
    if (← get).transaction.isSome then do
      rollback
      throw failure
    else throw failure
  if (← get).transaction.isSome then do
    commit
    return a
  else return a

def countByStates (states : List TaskState) (workerId : Option String) : Act ℕ :=
  withConnection (select fun store => store.countByStates states workerId)

def upsert (task : TaskRecord) : Act Unit := withConnection (execute fun store => store.upsert task)

/-- The transaction of `create_or_get`. -/
def insertOrGet (task : TaskRecord) (key : String) : Act (TaskRecord × Bool) :=
  tryCatch
    (do
      beginImmediate
      match ← select fun store => store.getByIdempotencyKey key with
      | some existing => do
        commit
        return (existing, false)
      | none => do
        execute fun store => store.insert task
        commit
        return (task, true))
    fun failure => do
      rollback
      throw failure

def createOrGet (task : TaskRecord) : Act (TaskRecord × Bool) :=
  match task.idempotencyKey with
  | none => do
    upsert task
    return (task, true)
  | some key =>
    if key = "" then do
      upsert task
      return (task, true)
    else withConnection (insertOrGet task key)

/-- `audit.emit`.  What opening the file and writing to it raise are `OSError`s, and they are
caught. -/
def emit (event : AuditEvent) : Act Unit := do
  let s ← get
  if s.audit.enabled = true ∧ s.audit.path.isSome = true then
    tryCatch
      (do
        request
        modify fun s => { s with trail := event :: s.trail })
      fun _ => modify fun s => { s with audit := { s.audit with path := none } }
  else pure ()

/-- `if count >= limit: raise SaturationError(message, status_code=503, scope=scope)`. -/
def enforceLimit (count limit : ℕ) (message : Text) (scope : String) : Act Unit :=
  if count ≥ limit then throw (.python (.saturation message 503 scope)) else pure ()

def enforceAsyncLimits (workerId : String) : Act Unit := do
  let mgr := (← get).process.mgr
  let globalQueued ← countByStates queuedStates none
  enforceLimit globalQueued mgr.limits.globalPendingTasks
    "global pending task queue is full".toList "global_pending"
  let workerQueued ← countByStates queuedStates (some workerId)
  enforceLimit workerQueued mgr.limits.perWorkerPendingTasks
    "worker pending task queue is full".toList "worker_pending"
  enforceLimit mgr.activeCount mgr.limits.globalActiveTasks
    "global active task limit reached".toList "global_active"
  match mgr.limits.perWorkerActiveTasks with
  | none => pure ()
  | some perWorkerActive => do
    let active ← countByStates activeStates (some workerId)
    enforceLimit active perWorkerActive "worker active task limit reached".toList "worker_active"

def modifyManager (g : Manager → Manager) : Act Unit :=
  modify fun s => { s with process := { s.process with mgr := g s.process.mgr } }

/-- `_task_response`, with which the call is answered. -/
def respond (task : TaskRecord) (key : Option String) : Act Response := do
  modify fun s => { s with process := { s.process with world := { s.process.world with
    answers := ⟨key, task.taskId⟩ :: s.process.world.answers } } }
  return .task (taskResponse task)

/-- What follows `create_or_get`. -/
def finishCall (task : TaskRecord) (created : Bool) (workerId : String) (key : Option String)
    (actor sourceIp : Option String) : Act Response :=
  if created then do
    modifyManager fun mgr => { mgr with metrics := mgr.metrics.incTaskCreated workerId .async }
    emit ⟨"accepted", actor, sourceIp, workerId, task.taskId⟩
    modifyManager fun mgr => mgr.schedule task
    respond task key
  else do
    emit ⟨"idempotent_replay", actor, sourceIp, workerId, task.taskId⟩
    respond task key

end Submission

/-- The arguments of `TaskManager.call`.  The MCP front end passes what the client sent. -/
structure CallArguments where
  workerId : Json
  prompt : Json
  idempotencyKey : Json
  actor : Option String
  sourceIp : Option String

namespace Submission

/-- `call` from the limits on. -/
def submitRow (worker : WorkerConfig) (workerId : String) (prompt workingDirectory : Text)
    (arguments : CallArguments) (taskId now : String) : Act Response := do
  enforceAsyncLimits workerId
  match recordKey arguments.idempotencyKey with
  | none => throw (.plain "ValidationError".toList)
  | some key => do
    let (task, created) ← createOrGet (TaskRecord.new taskId workerId prompt (some workingDirectory) key
      worker.timeoutLimits.asyncSeconds now)
    finishCall task created workerId key arguments.actor arguments.sourceIp

def modeRefused (workerId : String) : Response :=
  .refused ("mode async is not allowed for worker ".toList ++ workerId.toList) none

/-- `call` for a worker that was found and a prompt that is a string. -/
def submit (host : Host) (worker : WorkerConfig) (workerId : String) (prompt : Text)
    (arguments : CallArguments) (taskId now : String) : Act Response := do
  let workingDirectory ← ofExcept Failure.python (resolveWorkingDirectory host worker prompt)
  if Mode.async ∉ worker.allowedModes then return modeRefused workerId
  else submitRow worker workerId prompt workingDirectory arguments taskId now

/-- `TaskManager.call` in mode `async`. -/
def call (host : Host) (arguments : CallArguments) (taskId now : String) : Act Response :=
  match arguments.workerId with
  | .arr _ | .obj _ => throw (.plain "TypeError".toList)
  | .null | .bool _ | .num _ => throw (.plain "KeyError".toList)
  | .str w => do
    let worker ← ofExcept Failure.python ((← get).process.mgr.worker (String.ofList w))
    match arguments.prompt with
    | .str prompt => submit host worker (String.ofList w) prompt arguments taskId now
    | _ => throw (.plain "TypeError".toList)

/-- The process and its registry are `k`. -/
def Kept (k : Process × WorkerRegistry) (s : Submission) : Prop :=
  s.process = k.1 ∧ s.registry = k.2

theorem request_keeps {P E : Submission → Prop}
    (hP : ∀ s faults, P s → P { s with faults := faults }) (hE : ∀ s, P s → E s) :
    Triple P request (fun _ => P) (fun _ => E) := by
  apply Triple.get_bind
  intro s₀ hs₀
  split
  · exact Triple.pure fun s hs => hs ▸ hs₀
  · exact Triple.modify fun s hs => hP s _ (hs ▸ hs₀)
  · refine Triple.bind (Q := fun _ => P) (Triple.modify fun s hs => hP s _ (hs ▸ hs₀)) fun _ => ?_
    exact Triple.throw fun s hs => hE s hs

section Kept

variable {k : Process × WorkerRegistry} {t : Option (Store × Bool)} {α : Type}

theorem select_kept (query : Store → α) :
    Triple (fun s => Kept k s ∧ s.transaction = t) (select query)
      (fun _ s => Kept k s ∧ s.transaction = t) (fun _ s => Kept k s) := by
  apply Triple.bind (request_keeps (fun _ _ h => h) fun _ h => h.1)
  intro _
  apply Triple.get_bind
  exact fun s₀ hs₀ => Triple.pure fun s hs => hs ▸ hs₀

theorem execute_kept (statement : Store → Except PyExc Store) {x : Store × Bool} :
    Triple (fun s => Kept k s ∧ s.transaction = some x) (execute statement)
      (fun _ s => Kept k s) (fun _ s => Kept k s) := by
  apply Triple.bind (request_keeps (fun _ _ h => h) fun _ h => h.1)
  intro _
  apply Triple.get_bind
  intro s₀ hs₀
  split
  · exact Triple.throw fun s hs => hs ▸ hs₀.1
  · apply Triple.ite
    · exact fun _ => Triple.modify fun s hs => hs ▸ hs₀.1
    · intro hnone
      rw [hs₀.2] at hnone
      exact absurd rfl hnone

theorem execute_alone (statement : Store → Except PyExc Store) :
    Triple (fun s => Kept k s ∧ s.transaction = none) (execute statement)
      (fun _ s => s.transaction = none) (fun _ s => Kept k s) := by
  apply Triple.bind (request_keeps (fun _ _ h => h) fun _ h => h.1)
  intro _
  apply Triple.get_bind
  intro s₀ hs₀
  split
  · exact Triple.throw fun s hs => hs ▸ hs₀.1
  · apply Triple.ite
    · intro hsome
      rw [hs₀.2] at hsome
      exact absurd hsome Bool.false_ne_true
    · exact fun _ => Triple.modify fun s hs => hs ▸ hs₀.2

theorem beginImmediate_kept : Triple (Kept k) beginImmediate
    (fun _ s => Kept k s ∧ s.transaction = some (k.1.store, false)) (fun _ s => Kept k s) := by
  apply Triple.bind (request_keeps (fun _ _ h => h) fun _ h => h)
  exact fun _ => Triple.modify fun s hs => ⟨hs, by rw [← hs.1]⟩

theorem commit_kept : Triple (Kept k) commit (fun _ s => s.transaction = none) (fun _ s => Kept k s) := by
  apply Triple.bind (request_keeps (fun _ _ h => h) fun _ h => h)
  intro _
  apply Triple.get_bind
  intro s₀ hs₀
  split
  · exact Triple.throw fun s hs => hs ▸ hs₀
  · exact Triple.modify fun s hs => rfl

theorem rollback_kept : Triple (Kept k) rollback (fun _ s => Kept k s) (fun _ s => Kept k s) := by
  apply Triple.bind (request_keeps (fun _ _ h => h) fun _ h => h)
  intro _
  apply Triple.get_bind
  intro s₀ hs₀
  split
  · exact Triple.throw fun s hs => hs ▸ hs₀
  · exact Triple.modify fun s hs => hs ▸ hs₀

theorem connect_kept : Triple (Kept k) connect
    (fun _ s => Kept k s ∧ s.transaction = none) (fun _ s => Kept k s) := by
  have hrequest : Triple (Kept k) request (fun _ => Kept k) (fun _ => Kept k) :=
    request_keeps (fun _ _ h => h) fun _ h => h
  refine Triple.bind hrequest fun _ => Triple.bind hrequest fun _ => Triple.bind hrequest fun _ => ?_
  exact Triple.modify fun s hs => ⟨hs, rfl⟩

theorem withConnection_kept {body : Act α} {Q : α → Submission → Prop}
    (hbody : Triple (fun s => Kept k s ∧ s.transaction = none) body
      (fun a s => Q a s ∧ s.transaction = none) (fun _ s => Kept k s)) :
    Triple (Kept k) (withConnection body) Q (fun _ s => Kept k s) := by
  apply Triple.bind connect_kept
  intro _
  have hraise : ∀ e, Triple (Kept k) (do
      if (← get).transaction.isSome then do
        rollback
        throw e
      else throw e : Act α) (fun a s => Q a s ∧ s.transaction = none) (fun _ s => Kept k s) := by
    intro e
    apply Triple.get_bind
    intro s₀ hs₀
    apply Triple.ite
    · intro _
      refine Triple.bind (Triple.conseq rollback_kept (fun s hs => hs ▸ hs₀) (fun _ _ h => h)
        fun _ _ h => h) fun _ => ?_
      exact Triple.throw fun _ h => h
    · exact fun _ => Triple.throw fun s hs => hs ▸ hs₀
  apply Triple.bind (Triple.tryCatch hbody hraise)
  intro a
  apply Triple.get_bind
  intro s₀ hs₀
  apply Triple.ite
  · intro hsome
    rw [hs₀.2] at hsome
    exact absurd hsome Bool.false_ne_true
  · exact fun _ => Triple.pure fun s hs => hs ▸ hs₀.1

theorem countByStates_kept (states : List TaskState) (workerId : Option String) :
    Triple (Kept k) (countByStates states workerId) (fun _ s => Kept k s) (fun _ s => Kept k s) :=
  withConnection_kept (select_kept _)

theorem upsert_kept (task : TaskRecord) :
    Triple (Kept k) (upsert task) (fun _ _ => True) (fun _ s => Kept k s) :=
  withConnection_kept (Triple.conseq (execute_alone _) (fun _ h => h) (fun _ _ h => ⟨trivial, h⟩)
    fun _ _ h => h)

theorem insertOrGet_kept (task : TaskRecord) (key : String) :
    Triple (Kept k) (insertOrGet task key) (fun _ s => s.transaction = none) (fun _ s => Kept k s) := by
  apply Triple.tryCatch
  · apply Triple.bind beginImmediate_kept
    intro _
    apply Triple.bind (select_kept _)
    intro existing
    split
    · refine Triple.bind (Triple.conseq commit_kept (fun _ h => h.1) (fun _ _ h => h)
        fun _ _ h => h) fun _ => ?_
      exact Triple.pure fun _ h => h
    · refine Triple.bind (execute_kept _) fun _ => Triple.bind commit_kept fun _ => ?_
      exact Triple.pure fun _ h => h
  · exact fun e => Triple.bind rollback_kept fun _ => Triple.throw fun _ h => h

theorem createOrGet_kept (task : TaskRecord) :
    Triple (Kept k) (createOrGet task) (fun _ _ => True) (fun _ s => Kept k s) := by
  have hupsert : Triple (Kept k) (do
      upsert task
      return (task, true)) (fun _ _ => True) (fun _ s => Kept k s) :=
    Triple.bind (upsert_kept task) fun _ => Triple.pure fun _ h => h
  unfold createOrGet
  split
  · exact hupsert
  · next key _ =>
    apply Triple.ite
    · exact fun _ => hupsert
    · intro _
      exact withConnection_kept (Triple.conseq (insertOrGet_kept task key) (fun _ h => h.1)
        (fun _ _ h => ⟨trivial, h⟩) fun _ _ h => h)

theorem enforceLimit_kept (count limit : ℕ) (message : Text) (scope : String) :
    Triple (Kept k) (enforceLimit count limit message scope) (fun _ s => Kept k s)
      (fun _ s => Kept k s) := by
  apply Triple.ite
  · exact fun _ => Triple.throw fun _ h => h
  · exact fun _ => Triple.pure fun _ h => h

theorem enforceAsyncLimits_kept (workerId : String) :
    Triple (Kept k) (enforceAsyncLimits workerId) (fun _ s => Kept k s) (fun _ s => Kept k s) := by
  apply Triple.get_bind
  intro s₀ hs₀
  refine Triple.conseq ?_ (fun s hs => hs ▸ hs₀) (fun _ _ h => h) fun _ _ h => h
  refine Triple.bind (countByStates_kept _ _) fun _ => Triple.bind (enforceLimit_kept _ _ _ _) fun _ => ?_
  refine Triple.bind (countByStates_kept _ _) fun _ => Triple.bind (enforceLimit_kept _ _ _ _) fun _ => ?_
  refine Triple.bind (enforceLimit_kept _ _ _ _) fun _ => ?_
  split
  · exact Triple.pure fun _ h => h
  · exact Triple.bind (countByStates_kept _ _) fun _ => enforceLimit_kept _ _ _ _

theorem emit_returns (event : AuditEvent) :
    Triple (fun _ => True) (emit event) (fun _ _ => True) (fun _ _ => False) := by
  apply Triple.get_bind
  intro s₀ _
  apply Triple.ite
  · intro _
    apply Triple.tryCatch (F := fun _ _ => True)
    · refine Triple.bind (Q := fun _ _ => True) ?_ fun _ => Triple.modify fun _ _ => trivial
      exact Triple.conseq (request_keeps (fun _ _ h => h) fun _ h => h) (fun _ _ => trivial)
        (fun _ _ h => h) fun _ _ h => h
    · exact fun _ => Triple.modify fun _ _ => trivial
  · exact fun _ => Triple.pure fun _ _ => trivial

theorem respond_returns (task : TaskRecord) (key : Option String) :
    Triple (fun _ => True) (respond task key) (fun response _ => response = .task (taskResponse task))
      (fun _ _ => False) :=
  Triple.bind (Q := fun _ _ => True) (Triple.modify fun _ _ => trivial) fun _ =>
    Triple.pure fun _ _ => rfl

theorem admit_returns (task : TaskRecord) (created : Bool) (workerId : String)
    (key actor sourceIp : Option String) :
    Triple (fun _ => True) (finishCall task created workerId key actor sourceIp)
      (fun response _ => response = .task (taskResponse task)) (fun _ _ => False) := by
  have hmodify : ∀ g, Triple (fun _ => True) (modifyManager g) (fun _ _ => True) (fun _ _ => False) :=
    fun g => Triple.modify fun _ _ => trivial
  apply Triple.ite
  · intro _
    refine Triple.bind (hmodify _) fun _ => Triple.bind (emit_returns _) fun _ => ?_
    exact Triple.bind (hmodify _) fun _ => respond_returns task key
  · exact fun _ => Triple.bind (emit_returns _) fun _ => respond_returns task key

theorem submitRow_kept (worker : WorkerConfig) (workerId : String) (prompt workingDirectory : Text)
    (arguments : CallArguments) (taskId now : String) :
    Triple (Kept k) (submitRow worker workerId prompt workingDirectory arguments taskId now)
      (fun response _ => ∃ task, response = .task (taskResponse task)) (fun _ s => Kept k s) := by
  apply Triple.bind (enforceAsyncLimits_kept workerId)
  intro _
  split
  · exact Triple.throw fun _ h => h
  · apply Triple.bind (createOrGet_kept _)
    intro r
    exact Triple.conseq (admit_returns _ _ _ _ _ _) (fun _ h => h) (fun _ _ h => ⟨r.1, h⟩)
      fun _ _ h => h.elim

theorem ofExcept_kept (r : Except PyExc α) :
    Triple (Kept k) (ofExcept Failure.python r) (fun _ s => Kept k s) (fun _ s => Kept k s) := by
  cases r with
  | ok a => exact Triple.pure fun _ h => h
  | error exc => exact Triple.throw fun _ h => h

theorem submit_kept (host : Host) (worker : WorkerConfig) (workerId : String) (prompt : Text)
    (arguments : CallArguments) (taskId now : String) :
    Triple (Kept k) (submit host worker workerId prompt arguments taskId now)
      (fun response s => (∃ task, response = .task (taskResponse task)) ∨ Kept k s)
      (fun _ s => Kept k s) := by
  apply Triple.bind (ofExcept_kept _)
  intro workingDirectory
  apply Triple.ite
  · exact fun _ => Triple.pure fun _ h => Or.inr h
  · exact fun _ => Triple.conseq (submitRow_kept _ _ _ _ _ _ _) (fun _ h => h)
      (fun _ _ h => Or.inl h) fun _ _ h => h

theorem call_kept (host : Host) (arguments : CallArguments) (taskId now : String) :
    Triple (Kept k) (call host arguments taskId now)
      (fun response s => (∃ task, response = .task (taskResponse task)) ∨ Kept k s)
      (fun _ s => Kept k s) := by
  unfold call
  split
  any_goals exact Triple.throw fun _ h => h
  apply Triple.get_bind
  intro s₀ hs₀
  refine Triple.conseq ?_ (fun s hs => hs ▸ hs₀) (fun _ _ h => h) fun _ _ h => h
  apply Triple.bind (ofExcept_kept _)
  intro worker
  split
  · exact submit_kept _ _ _ _ _ _ _
  · exact Triple.throw fun _ h => h

end Kept

/-- What of the bridge is the same before and after. -/
structure LeavesNoTrace (s s' : Submission) : Prop where
  rows : s'.process.store.rows = s.process.store.rows
  handles : s'.process.mgr.handles = s.process.mgr.handles
  background : s'.process.mgr.background = s.process.mgr.background
  circuits : s'.registry.circuits = s.registry.circuits
  tasksCreated : s'.process.mgr.metrics.tasksCreated = s.process.mgr.metrics.tasksCreated

theorem Kept.leavesNoTrace {s s' : Submission} (h : Kept (s.process, s.registry) s') :
    LeavesNoTrace s s' := by
  obtain ⟨hp, hr⟩ := h
  constructor <;> first | rw [hp] | rw [hr]

/-- An exception, or an answer whose `ok` is false. -/
def Rejected : Except Failure Response → Prop
  | .error _ => True
  | .ok (.refused _ _) => True
  | .ok (.task _) => False

/-- A submission that is rejected leaves no trace, wherever it failed. -/
theorem rejected_leaves_no_trace (host : Host) (arguments : CallArguments) (taskId now : String)
    (s : Submission) (h : Rejected ((call host arguments taskId now).outcome s).1) :
    LeavesNoTrace s ((call host arguments taskId now).outcome s).2 := by
  obtain ⟨hok, herror⟩ := call_kept (k := (s.process, s.registry)) host arguments taskId now s
    ⟨rfl, rfl⟩
  rcases hx : (call host arguments taskId now).outcome s with ⟨r, s'⟩
  rw [hx] at h
  cases r with
  | error failure => exact (herror failure s' hx).leavesNoTrace
  | ok response =>
    rcases hok response s' hx with ⟨task, rfl⟩ | hkept
    · exact absurd h id
    · exact hkept.leavesNoTrace

section Computes

variable {s : Submission} {α : Type}

def disconnected (s : Submission) : Submission := { s with transaction := none }

theorem request_outcome (h : s.faults = []) : request.outcome s = (.ok (), s) := by
  unfold request
  rw [outcome_bind_ok (outcome_get s), h]
  rfl

theorem select_outcome (h : s.faults = []) (query : Store → α) :
    (select query).outcome s = (.ok (query s.visible), s) := by
  unfold select
  rw [outcome_bind_ok (request_outcome h), outcome_bind_ok (outcome_get s)]
  rfl

theorem execute_error (h : s.faults = []) {statement : Store → Except PyExc Store} {exc : PyExc}
    (hst : statement s.visible = .error exc) :
    (execute statement).outcome s = (.error (.python exc), s) := by
  unfold execute
  rw [outcome_bind_ok (request_outcome h), outcome_bind_ok (outcome_get s), hst]
  rfl

theorem execute_inside (h : s.faults = []) {statement : Store → Except PyExc Store} {store : Store}
    {x : Store × Bool} (ht : s.transaction = some x) (hst : statement s.visible = .ok store) :
    (execute statement).outcome s = (.ok (), { s with transaction := some (store, true) }) := by
  unfold execute
  rw [outcome_bind_ok (request_outcome h), outcome_bind_ok (outcome_get s), hst, ht]
  rfl

theorem execute_outside (h : s.faults = []) {statement : Store → Except PyExc Store} {store : Store}
    (ht : s.transaction = none) (hst : statement s.visible = .ok store) :
    (execute statement).outcome s = (.ok (), s.write store) := by
  unfold execute
  rw [outcome_bind_ok (request_outcome h), outcome_bind_ok (outcome_get s), hst, ht]
  rfl

theorem commit_outcome (h : s.faults = []) {store : Store} {written : Bool}
    (ht : s.transaction = some (store, written)) : commit.outcome s =
      (.ok (), if written then s.disconnected.write store else s.disconnected) := by
  unfold commit
  rw [outcome_bind_ok (request_outcome h), outcome_bind_ok (outcome_get s), ht]
  cases written <;> rfl

theorem rollback_outcome (h : s.faults = []) {x : Store × Bool} (ht : s.transaction = some x) :
    rollback.outcome s = (.ok (), s.disconnected) := by
  unfold rollback
  rw [outcome_bind_ok (request_outcome h), outcome_bind_ok (outcome_get s), ht]
  rfl

theorem connect_outcome (h : s.faults = []) : connect.outcome s = (.ok (), s.disconnected) := by
  unfold connect
  rw [outcome_bind_ok (request_outcome h), outcome_bind_ok (request_outcome h),
    outcome_bind_ok (request_outcome h)]
  rfl

theorem withConnection_ok {body : Act α} {a : α} {s' : Submission} (h : s.faults = [])
    (hbody : body.outcome s.disconnected = (.ok a, s')) (ht : s'.transaction = none) :
    (withConnection body).outcome s = (.ok a, s') := by
  unfold withConnection
  rw [outcome_bind_ok (connect_outcome h), outcome_bind_ok (outcome_tryCatch_ok hbody),
    outcome_bind_ok (outcome_get s'), ht]
  rfl

theorem withConnection_error {body : Act α} {e : Failure} {s' : Submission} (h : s.faults = [])
    (hbody : body.outcome s.disconnected = (.error e, s')) (ht : s'.transaction = none) :
    (withConnection body).outcome s = (.error e, s') := by
  unfold withConnection
  rw [outcome_bind_ok (connect_outcome h)]
  apply outcome_bind_error
  rw [outcome_tryCatch_error hbody, outcome_bind_ok (outcome_get s'), ht]
  rfl

theorem countByStates_outcome (h : s.faults = []) (states : List TaskState)
    (workerId : Option String) : (countByStates states workerId).outcome s =
      (.ok (s.process.store.countByStates states workerId), s.disconnected) := by
  have hd : s.disconnected.faults = [] := h
  exact withConnection_ok h (select_outcome hd _) rfl

theorem upsert_outcome (h : s.faults = []) (task : TaskRecord) : (upsert task).outcome s =
    match s.process.store.upsert task with
    | .ok store => (.ok (), s.disconnected.write store)
    | .error exc => (.error (.python exc), s.disconnected) := by
  have hd : s.disconnected.faults = [] := h
  unfold upsert
  cases hs : s.process.store.upsert task with
  | ok store => exact withConnection_ok h (execute_outside hd rfl hs) rfl
  | error exc => exact withConnection_error h (execute_error hd hs) rfl

theorem insertOrGet_outcome (h : s.faults = []) (task : TaskRecord) (key : String) :
    (insertOrGet task key).outcome s.disconnected =
      match s.process.store.getByIdempotencyKey key with
      | some existing => (.ok (existing, false), s.disconnected)
      | none => match s.process.store.insert task with
        | .ok store => (.ok (task, true), s.disconnected.write store)
        | .error exc => (.error (.python exc), s.disconnected) := by
  -- The transaction sees the rows of the database until it writes.
  let s₁ : Submission := { s with transaction := some (s.process.store, false) }
  have hd : s.disconnected.faults = [] := h
  have h₁ : s₁.faults = [] := h
  have hbegin : beginImmediate.outcome s.disconnected = (.ok (), s₁) := by
    unfold beginImmediate
    rw [outcome_bind_ok (request_outcome hd)]
    rfl
  have hselect := select_outcome h₁ fun store => store.getByIdempotencyKey key
  have hvisible : s₁.visible = s.process.store := rfl
  rw [hvisible] at hselect
  unfold insertOrGet
  cases hg : s.process.store.getByIdempotencyKey key with
  | some existing =>
    rw [hg] at hselect
    apply outcome_tryCatch_ok
    rw [outcome_bind_ok hbegin, outcome_bind_ok hselect, outcome_bind_ok (commit_outcome h₁ rfl)]
    rfl
  | none =>
    rw [hg] at hselect
    cases hi : s.process.store.insert task with
    | ok store =>
      let s₂ : Submission := { s with transaction := some (store, true) }
      have hinsert : (execute fun store => store.insert task).outcome s₁ = (.ok (), s₂) :=
        execute_inside h₁ rfl hi
      have h₂ : s₂.faults = [] := h
      apply outcome_tryCatch_ok
      rw [outcome_bind_ok hbegin, outcome_bind_ok hselect, outcome_bind_ok hinsert,
        outcome_bind_ok (commit_outcome h₂ rfl)]
      rfl
    | error exc =>
      have hinsert : (execute fun store => store.insert task).outcome s₁ =
          (.error (.python exc), s₁) := execute_error h₁ hi
      rw [outcome_tryCatch_error]
      · rw [outcome_bind_ok (rollback_outcome h₁ rfl)]
        rfl
      · rw [outcome_bind_ok hbegin, outcome_bind_ok hselect, outcome_bind_error hinsert]

theorem createOrGet_outcome (h : s.faults = []) (task : TaskRecord) :
    (createOrGet task).outcome s = match s.process.store.createOrGet task with
      | .ok (store, task', created) =>
        (.ok (task', created), if created then s.disconnected.write store else s.disconnected)
      | .error exc => (.error (.python exc), s.disconnected) := by
  have hupsert : outcome (do
      upsert task
      return (task, true)) s = match (s.process.store.upsert task).map fun st => (st, task, true) with
      | .ok (store, task', created) =>
        (.ok (task', created), if created then s.disconnected.write store else s.disconnected)
      | .error exc => (.error (.python exc), s.disconnected) := by
    have hrun := upsert_outcome h task
    cases hs : s.process.store.upsert task with
    | ok store =>
      rw [hs] at hrun
      rw [outcome_bind_ok hrun]
      rfl
    | error exc =>
      rw [hs] at hrun
      rw [outcome_bind_error hrun]
      rfl
  unfold createOrGet Store.createOrGet
  cases hkey : task.idempotencyKey with
  | none => exact hupsert
  | some key =>
    by_cases he : key = ""
    · simp only [if_pos he]
      exact hupsert
    · simp only [if_neg he]
      have hrun := insertOrGet_outcome h task key
      cases hg : s.process.store.getByIdempotencyKey key with
      | some existing =>
        rw [hg] at hrun
        exact withConnection_ok h hrun rfl
      | none =>
        rw [hg] at hrun
        cases hi : s.process.store.insert task with
        | ok store =>
          rw [hi] at hrun
          exact withConnection_ok h hrun rfl
        | error exc =>
          rw [hi] at hrun
          exact withConnection_error h hrun rfl

theorem enforceLimit_reached {count limit : ℕ} (hl : count ≥ limit) (message : Text) (scope : String) :
    (enforceLimit count limit message scope).outcome s =
      (.error (.python (.saturation message 503 scope)), s) := by
  unfold enforceLimit
  rw [if_pos hl]
  rfl

theorem enforceLimit_passed {count limit : ℕ} (hl : ¬ count ≥ limit) (message : Text)
    (scope : String) : (enforceLimit count limit message scope).outcome s = (.ok (), s) := by
  unfold enforceLimit
  rw [if_neg hl]
  rfl

theorem enforceAsyncLimits_outcome (h : s.faults = []) (workerId : String) :
    (enforceAsyncLimits workerId).outcome s =
      match s.process.mgr.enforceAsyncLimits s.process.store workerId with
      | .ok () => (.ok (), s.disconnected)
      | .error exc => (.error (.python exc), s.disconnected) := by
  have hd : s.disconnected.faults = [] := h
  have hcount : ∀ states w, (countByStates states w).outcome s.disconnected =
      (.ok (s.process.store.countByStates states w), s.disconnected) :=
    fun states w => countByStates_outcome hd states w
  unfold enforceAsyncLimits Manager.enforceAsyncLimits
  rw [outcome_bind_ok (outcome_get s), outcome_bind_ok (countByStates_outcome h queuedStates none)]
  by_cases hg : s.process.store.countByStates queuedStates none ≥
      s.process.mgr.limits.globalPendingTasks
  · rw [outcome_bind_error (enforceLimit_reached hg _ _), if_pos hg]
  rw [outcome_bind_ok (enforceLimit_passed hg _ _), outcome_bind_ok (hcount queuedStates _), if_neg hg]
  by_cases hw : s.process.store.countByStates queuedStates (some workerId) ≥
      s.process.mgr.limits.perWorkerPendingTasks
  · rw [outcome_bind_error (enforceLimit_reached hw _ _), if_pos hw]
  rw [outcome_bind_ok (enforceLimit_passed hw _ _), if_neg hw]
  by_cases ha : s.process.mgr.activeCount ≥ s.process.mgr.limits.globalActiveTasks
  · rw [outcome_bind_error (enforceLimit_reached ha _ _), if_pos ha]
  rw [outcome_bind_ok (enforceLimit_passed ha _ _), if_neg ha]
  cases s.process.mgr.limits.perWorkerActiveTasks with
  | none => rfl
  | some perWorkerActive =>
    simp only
    rw [outcome_bind_ok (hcount activeStates _)]
    by_cases hp : s.process.store.countByStates activeStates (some workerId) ≥ perWorkerActive
    · rw [enforceLimit_reached hp, if_pos hp]
    · rw [enforceLimit_passed hp, if_neg hp]

theorem emit_outcome (h : s.faults = []) (event : AuditEvent) :
    ∃ s', (emit event).outcome s = (.ok (), s') ∧ s'.process = s.process := by
  unfold emit
  rw [outcome_bind_ok (outcome_get s)]
  split
  · refine ⟨_, outcome_tryCatch_ok (outcome_bind_ok (request_outcome h)), rfl⟩
  · exact ⟨s, rfl, rfl⟩

/-- What a process makes of the answer of `create_or_get`. -/
def admitted (p : Process) (task : TaskRecord) (created : Bool) (workerId : String)
    (key : Option String) : Process where
  world := { p.world with answers := ⟨key, task.taskId⟩ :: p.world.answers }
  mgr :=
    if created then
      { p.mgr with metrics := p.mgr.metrics.incTaskCreated workerId .async }.schedule task
    else p.mgr

theorem finishCall_outcome (h : s.faults = []) (task : TaskRecord) (created : Bool)
    (workerId : String) (key actor sourceIp : Option String) :
    ∃ s', (finishCall task created workerId key actor sourceIp).outcome s =
        (.ok (.task (taskResponse task)), s') ∧
      s'.process = admitted s.process task created workerId key := by
  have hmodify : ∀ (g : Manager → Manager) (s : Submission), (modifyManager g).outcome s =
      (.ok (), { s with process := { s.process with mgr := g s.process.mgr } }) := fun _ _ => rfl
  have hrespond : ∀ s : Submission, ∃ s', (respond task key).outcome s =
      (.ok (.task (taskResponse task)), s') ∧ s'.process = { s.process with
        world := { s.process.world with answers := ⟨key, task.taskId⟩ :: s.process.world.answers } } :=
    fun s => ⟨_, rfl, rfl⟩
  cases created with
  | true =>
    let counted (mgr : Manager) : Manager :=
      { mgr with metrics := mgr.metrics.incTaskCreated workerId .async }
    obtain ⟨s₁, hemit, hp₁⟩ := emit_outcome
      (s := { s with process := { s.process with mgr := counted s.process.mgr } }) h
      ⟨"accepted", actor, sourceIp, workerId, task.taskId⟩
    obtain ⟨s₂, hanswer, hp₂⟩ := hrespond
      { s₁ with process := { s₁.process with mgr := s₁.process.mgr.schedule task } }
    refine ⟨s₂, ?_, by rw [hp₂, hp₁]; rfl⟩
    unfold finishCall
    rw [if_pos rfl, outcome_bind_ok (hmodify _ s), outcome_bind_ok hemit,
      outcome_bind_ok (hmodify _ s₁), hanswer]
  | false =>
    obtain ⟨s₁, hemit, hp₁⟩ :=
      emit_outcome h ⟨"idempotent_replay", actor, sourceIp, workerId, task.taskId⟩
    obtain ⟨s₂, hanswer, hp₂⟩ := hrespond s₁
    refine ⟨s₂, ?_, by rw [hp₂, hp₁]; rfl⟩
    unfold finishCall
    rw [if_neg Bool.false_ne_true, outcome_bind_ok hemit, hanswer]

/-- The outcome is that of a pure computation, which leaves the process `p` when it fails. -/
def Agrees (p : Process) (r : Except PyExc (Process × Response)) (x : Act Response)
    (s : Submission) : Prop :=
  match r with
  | .ok (p', response) => ∃ s', x.outcome s = (.ok response, s') ∧ s'.process = p'
  | .error exc => ∃ s', x.outcome s = (.error (.python exc), s') ∧ s'.process = p

theorem Agrees.bind {β : Type} {p : Process} {r : Except PyExc α} {v : α → β} {y : Act β}
    {f : α → Except PyExc (Process × Response)} {g : β → Act Response}
    (hok : ∀ a, r = .ok a → ∃ s', y.outcome s = (.ok (v a), s') ∧ Agrees p (f a) (g (v a)) s')
    (herror : ∀ exc, r = .error exc → ∃ s', y.outcome s = (.error (.python exc), s') ∧
      s'.process = p) : Agrees p (r >>= f) (y >>= g) s := by
  cases r with
  | ok a =>
    obtain ⟨s', hy, hagrees⟩ := hok a rfl
    have hrun : (y >>= g).outcome s = (g (v a)).outcome s' := outcome_bind_ok hy
    have hpure : ((.ok a : Except PyExc α) >>= f) = f a := rfl
    rw [hpure]
    unfold Agrees at hagrees ⊢
    rwa [hrun]
  | error exc =>
    obtain ⟨s', hy, hp⟩ := herror exc rfl
    exact ⟨s', outcome_bind_error hy, hp⟩

theorem Agrees.get {p : Process} {r : Except PyExc (Process × Response)}
    {f : Submission → Act Response} (h : Agrees p r (f s) s) : Agrees p r (MonadState.get >>= f) s := by
  have hrun : (MonadState.get >>= f : Act Response).outcome s = (f s).outcome s :=
    outcome_bind_ok (outcome_get s)
  unfold Agrees at h ⊢
  rwa [hrun]

theorem Agrees.ofExcept {p : Process} {r : Except PyExc α}
    {f : α → Except PyExc (Process × Response)} {g : α → Act Response} (hs : s.process = p)
    (hok : ∀ a, Agrees p (f a) (g a) s) :
    Agrees p (r >>= f) (Raising.ofExcept Failure.python r >>= g) s := by
  apply Agrees.bind (v := id)
  · rintro a rfl
    exact ⟨s, rfl, hok a⟩
  · rintro exc rfl
    exact ⟨s, rfl, hs⟩

/-- Without faults a submission computes what `Process.call` does. -/
theorem call_computes (host : Host) (arguments : CallArguments) (taskId now : String)
    {w prompt : Text} {key : Option String} (h : s.faults = []) (hw : arguments.workerId = .str w)
    (hp : arguments.prompt = .str prompt) (hkey : recordKey arguments.idempotencyKey = some key) :
    Agrees s.process (s.process.call host ⟨String.ofList w, prompt, key⟩ taskId now)
      (call host arguments taskId now) s := by
  have hd : s.disconnected.faults = [] := h
  unfold call Process.call
  rw [hw]
  apply Agrees.get
  apply Agrees.ofExcept rfl
  intro worker
  rw [hp]
  apply Agrees.ofExcept rfl
  intro directory
  by_cases hmode : Mode.async ∉ worker.allowedModes
  · rw [if_pos hmode, if_pos hmode]
    exact ⟨s, rfl, rfl⟩
  rw [if_neg hmode, if_neg hmode]
  unfold submitRow
  apply Agrees.bind (v := id)
  · intro _ hl
    refine ⟨s.disconnected, by rw [enforceAsyncLimits_outcome h, hl], ?_⟩
    rw [hkey]
    have hrun := createOrGet_outcome hd (TaskRecord.new taskId (String.ofList w) prompt
      (some directory) key worker.timeoutLimits.asyncSeconds now)
    have hstore : s.disconnected.process.store = s.process.store := rfl
    apply Agrees.bind (v := Prod.snd)
    · rintro ⟨store, task, created⟩ hc
      rw [hstore, hc] at hrun
      refine ⟨_, hrun, ?_⟩
      cases created with
      | true =>
        have hw : (s.disconnected.disconnected.write store).faults = [] := h
        obtain ⟨s', ha, hp'⟩ := finishCall_outcome hw task true (String.ofList w) key arguments.actor
          arguments.sourceIp
        exact ⟨s', ha, hp'⟩
      | false =>
        obtain ⟨s', ha, hp'⟩ := finishCall_outcome hd task false (String.ofList w) key arguments.actor
          arguments.sourceIp
        exact ⟨s', ha, hp'⟩
    · intro exc hc
      rw [hstore, hc] at hrun
      exact ⟨_, hrun, rfl⟩
  · intro exc hl
    exact ⟨s.disconnected, by rw [enforceAsyncLimits_outcome h, hl], rfl⟩

end Computes

end Submission

namespace Sample

/-- A bridge without tasks, whose database fails at the request number `n`. -/
def failingAt (n : ℕ) : Submission where
  process := ⟨World.empty, Manager.new workers ⟨.manual, 0⟩ (limits none unlimited)⟩
  registry := WorkerRegistry.new workers breaker
  audit := ⟨false, none⟩
  trail := []
  transaction := none
  faults := List.replicate n none ++ [some (.other "OperationalError".toList "disk I/O error".toList)]

def arguments : CallArguments := ⟨.str "w".toList, .str prompt, .str "k".toList, none, none⟩

end Sample

namespace Submission

/-- The `COMMIT` of a new row fails. -/
theorem rejected_leaves_no_trace_at_commit : LeavesNoTrace (Sample.failingAt 14)
    ((call Sample.host Sample.arguments "a" "t0").outcome (Sample.failingAt 14)).2 :=
  rejected_leaves_no_trace Sample.host Sample.arguments "a" "t0" (Sample.failingAt 14) trivial

end Submission

end WorkerBridge
