import WorkerBridge.Bridge

namespace WorkerBridge

open TaskState

/-- What the row `r` of a coroutine can be.  In the recovery delay the coroutine
holds a copy of the row, and the row leaves that copy behind only by a `cancel`
that has also reached the coroutine. -/
def Handle.Agrees (h : Handle) (r : TaskRecord) : Prop :=
  match h.phase with
  | .created => r.state ≠ running
  | .sleeping task =>
    (r = task ∧ task.state = recovering) ∨ (r.state ∈ terminalStates ∧ h.cancelRequested = true)
  | .calling => r.state = running ∨ r.state ∈ terminalStates
  | .finished | .reaped => r.state ≠ running

/-- `row` gives the rows of the database. -/
structure Sound (row : String → Option TaskRecord) : Prop where
  bound : ∀ id r, row id = some r → r.workingDirectory ≠ none
  notRetrying : ∀ id r, row id = some r → r.state ≠ retrying

/-- What holds from `start` until `stop` is called. -/
structure Live (row : String → Option TaskRecord) (m : Manager) : Prop where
  tracked : ∀ (i : ℕ) (h : Handle), m.handles[i]? = some h → h.phase.done = false →
    (h.taskId, i) ∈ m.background
  asked : ∀ (i : ℕ) (h : Handle) (r : TaskRecord), m.handles[i]? = some h →
    h.phase.done = false → h.cancelRequested = true →
    row h.taskId = some r → r.state ∈ terminalStates
  held : ∀ id r, row id = some r → r.state = pending →
    ∃ (i : ℕ) (h : Handle), m.handles[i]? = some h ∧ h.taskId = id ∧ h.phase.done = false

structure Coherent (row : String → Option TaskRecord) (m : Manager) : Prop where
  inj : ∀ (i j : ℕ) (h k : Handle), m.handles[i]? = some h → m.handles[j]? = some k →
    h.taskId = k.taskId → i = j
  agrees : ∀ (i : ℕ) (h : Handle), m.handles[i]? = some h → ∃ r, row h.taskId = some r ∧ h.Agrees r
  keys : Table.Distinct Prod.fst m.background
  entry : ∀ e ∈ m.background, ∃ h : Handle, m.handles[e.2]? = some h ∧ h.taskId = e.1
  runningHeld : ∀ id r, row id = some r → r.state = running →
    ∃ (i : ℕ) (h : Handle), m.handles[i]? = some h ∧ h.taskId = id ∧ h.phase = .calling
  recoveringTracked : ∀ (i : ℕ) (h : Handle) (r : TaskRecord), m.handles[i]? = some h →
    h.phase.done = false → row h.taskId = some r → r.state = recovering →
      (h.taskId, i) ∈ m.background ∧ ∀ gathered ∈ m.gathering, i ∈ gathered
  live : m.started = true → m.gathering = none → Live row m

structure Process.Inv (p : Process) : Prop where
  sound : Sound p.row
  coherent : Coherent p.row p.mgr

def TaskRecord.begun (task : TaskRecord) (attemptId now : String) : TaskRecord :=
  (task.nextAttempt attemptId now).moveTo running now none none

/-- Every class of exceptions has a name, which stands in for an empty message. -/
def Action.Named : Action → Prop
  | .workerRaised _ exc _ => exc.className ≠ []
  | _ => True

instance (a : Action) : Decidable a.Named :=
  match a with
  | .workerRaised _ exc _ => inferInstanceAs (Decidable (exc.className ≠ []))
  | .call .. => isTrue trivial
  | .check .. => isTrue trivial
  | .cancel .. => isTrue trivial
  | .resume .. => isTrue trivial
  | .workerReturned .. => isTrue trivial
  | .throwCancelled .. => isTrue trivial
  | .doneCallback .. => isTrue trivial
  | .stop => isTrue trivial
  | .stopped => isTrue trivial
  | .reload .. => isTrue trivial

inductive Outcome (named : Prop) : TaskState → Option Text → Option Json → Prop
  | returned (result : Json) : Outcome named completed none (some result)
  | raised {target : TaskState} {error : Text} (ht : target ∈ [failed, timedOut])
      (hne : named → error ≠ []) : Outcome named target (some error) none

namespace Process

def settledAs (p : Process) (i : ℕ) (store : Store) (row : TaskRecord) : Process where
  world := p.world.write store
  mgr := { p.mgr.setPhase i .finished with
    metrics := p.mgr.metrics.incTaskCompleted row.workerId row.state }

/-- All that a step of a coherent process can do. -/
inductive Moves (p : Process) : Action → Process → Prop
  | idle {a : Action} : Moves p a p
  | replay {request : CallRequest} {taskId now key : String} {r : TaskRecord} (hkey : key ≠ "")
      (hreq : request.idempotencyKey = some key) (hrow : p.row r.taskId = some r)
      (hk : r.idempotencyKey = some key) :
      Moves p (.call request taskId now)
        ⟨{ p.world with answers := ⟨request.idempotencyKey, r.taskId⟩ :: p.world.answers }, p.mgr⟩
  | accept {request : CallRequest} {taskId now : String} {directory : Text} {timeout : ℚ}
      {task : TaskRecord} {store : Store} (hfresh : p.row taskId = none)
      (htask : task = TaskRecord.new taskId request.workerId request.prompt (some directory)
        request.idempotencyKey timeout now)
      (hlim : p.mgr.enforceAsyncLimits p.store request.workerId = .ok ())
      (hstore : p.store.insert task = .ok store) :
      Moves p (.call request taskId now)
        ⟨{ p.world.write store with
            answers := ⟨request.idempotencyKey, taskId⟩ :: p.world.answers },
          { p.mgr.track taskId with
            metrics := p.mgr.metrics.incTaskCreated request.workerId .async }⟩
  | cancel {taskId now : String} {task : TaskRecord} {store : Store}
      (hrow : p.row taskId = some task) (hlive : task.state ∉ terminalStates)
      (hstore : p.store.upsert
        (task.moveTo cancelled now (some "cancelled by caller".toList) none) = .ok store) :
      Moves p (.cancel taskId now)
        ⟨p.world.write store,
          { p.mgr.cancelTracked taskId with
            metrics := p.mgr.metrics.incTaskCompleted task.workerId cancelled }⟩
  | sleep {i : ℕ} {attemptId now : String} {h : Handle} {task : TaskRecord}
      (hat : p.mgr.handles[i]? = some h) (hph : h.phase = .created)
      (hreq : h.cancelRequested = false) (hrow : p.row h.taskId = some task)
      (hs : task.state = recovering) :
      Moves p (.resume i attemptId now) (p.setPhase i (.sleeping task))
  | attempt {i : ℕ} {attemptId now : String} {h : Handle} {task : TaskRecord} {store : Store}
      (hat : p.mgr.handles[i]? = some h) (hph : h.phase = .created ∨ h.phase = .sleeping task)
      (hreq : h.cancelRequested = false) (hrow : p.row h.taskId = some task)
      (hs : task.state ∈ queuedStates)
      (hstore : p.store.upsert (task.begun attemptId now) = .ok store) :
      Moves p (.resume i attemptId now)
        ⟨{ p.world.write store with
            calls := sentCall p.world.lifetimes (task.begun attemptId now)
              (decide (task.state = recovering)) :: p.world.calls },
          p.mgr.setPhase i .calling⟩
  | quit {a : Action} {i : ℕ} {h : Handle} {r : TaskRecord} (hat : p.mgr.handles[i]? = some h)
      (hdone : h.phase.done = false) (hrow : p.row h.taskId = some r)
      (hr : r.state ∈ terminalStates ∨ (h.phase = .created ∧ h.cancelRequested = true)) :
      Moves p a (p.setPhase i .finished)
  | settle {a : Action} {i : ℕ} {now : String} {h : Handle} {r : TaskRecord} {target : TaskState}
      {error : Option Text} {result : Option Json} {store : Store}
      (hat : p.mgr.handles[i]? = some h) (hph : h.phase = .calling)
      (hrow : p.row h.taskId = some r) (hs : r.state = running)
      (ht : target ∈ [completed, failed, timedOut])
      (hstore : p.store.upsert (r.moveTo target now error result) = .ok store)
      (hout : Outcome a.Named target error result) :
      Moves p a (p.settledAs i store (r.moveTo target now error result))
  | abandon {i : ℕ} {now : String} {h : Handle} {r : TaskRecord} {store : Store}
      (hat : p.mgr.handles[i]? = some h) (hph : h.phase = .calling ∨ h.phase = .sleeping r)
      (hreq : h.cancelRequested = true) (hrow : p.row h.taskId = some r)
      (hlive : r.state ∉ terminalStates)
      (hstore : p.store.upsert
        (r.moveTo cancelled now (some "background task cancelled".toList) none) = .ok store) :
      Moves p (.throwCancelled i now)
        (p.settledAs i store (r.moveTo cancelled now (some "background task cancelled".toList) none))
  | callback {i : ℕ} {h : Handle} (hat : p.mgr.handles[i]? = some h) (hph : h.phase = .finished) :
      Moves p (.doneCallback i)
        { p with
          mgr := { p.mgr.setPhase i .reaped with
            background := Manager.backgroundPop p.mgr.background h.taskId } }
  | stop (hg : p.mgr.gathering = none) : Moves p .stop p.stop
  | stopped {gathered : List ℕ} (hg : p.mgr.gathering = some gathered)
      (hdone : ∀ i ∈ gathered, p.mgr.done i = true) : Moves p .stopped p.stopped
  | reload {workers : List WorkerConfig} {recovery : RecoveryConfig} {limits : LimitsConfig} :
      Moves p (.reload workers recovery limits) (p.reload workers recovery limits)

end Process

end WorkerBridge
