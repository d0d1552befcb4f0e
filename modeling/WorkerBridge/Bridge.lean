import WorkerBridge.Manager
import WorkerBridge.Runs

namespace WorkerBridge

/-- The atomic steps of a running process.  `resume` is what the event loop does
with a coroutine that nothing has been thrown into and that does not wait for a
worker; `throwCancelled` delivers the exception `cancel()` asked for. -/
inductive Action
  | call (request : CallRequest) (taskId now : String)
  | check (taskId : String)
  | cancel (taskId now : String)
  | resume (i : ℕ) (attemptId now : String)
  | workerReturned (i : ℕ) (result : Json) (now : String)
  | workerRaised (i : ℕ) (exc : PyExc) (now : String)
  | throwCancelled (i : ℕ) (now : String)
  | doneCallback (i : ℕ)
  | stop
  | stopped
  | reload (workers : List WorkerConfig) (recovery : RecoveryConfig) (limits : LimitsConfig)

namespace Process

variable (p : Process)

/-- The coroutine `i`, if it can go on without an exception. -/
def runnable (i : ℕ) : Option Handle :=
  p.mgr.handles[i]?.filter fun h => !h.cancelRequested

def resume (host : Host) (i : ℕ) (attemptId now : String) : Option Process :=
  (p.runnable i).bind fun h =>
    match h.phase with
    | .created => some (p.runTask host i h.taskId attemptId now)
    | .sleeping task => some (p.dispatch host i task attemptId now)
    | .calling | .finished | .reaped => none

def awaiting (i : ℕ) : Option Handle :=
  (p.runnable i).filter fun h => match h.phase with | .calling => true | _ => false

def workerReturned (i : ℕ) (result : Json) (now : String) : Option Process :=
  (p.awaiting i).map fun h => (p.complete h.taskId result now).setPhase i .finished

def workerRaised (i : ℕ) (exc : PyExc) (now : String) : Option Process :=
  (p.awaiting i).map fun h => (p.handleException h.taskId exc now).setPhase i .finished

/-- A coroutine that has not begun ends without running any of its code. -/
def throwCancelled (i : ℕ) (now : String) : Option Process :=
  (p.mgr.handles[i]?.filter Handle.cancelRequested).bind fun h =>
    match h.phase with
    | .created => some (p.setPhase i .finished)
    -- Both awaits are inside the `try`.
    | .sleeping _ | .calling => some ((p.handleCancelled h.taskId now).setPhase i .finished)
    | .finished | .reaped => none

def doneCallback (i : ℕ) : Option Process :=
  p.mgr.handles[i]?.bind fun h =>
    match h.phase with
    | .finished =>
      some { p with
        mgr := { p.mgr.setPhase i .reaped with
          background := Manager.backgroundPop p.mgr.background h.taskId } }
    | _ => none

/-- One step.  Fresh ids are new to the database; a `stop` is not called again
while it runs. -/
def act (host : Host) : Action → Option Process
  | .call request taskId now =>
    if p.row taskId = none then
      match p.call host request taskId now with
      | .ok (p', _) => some p'
      -- The exception goes to the caller, before anything is written.
      | .error _ => some p
    else none
  | .check _ => some p
  | .cancel taskId now => some (p.cancel taskId now).1
  | .resume i attemptId now => p.resume host i attemptId now
  | .workerReturned i result now => p.workerReturned i result now
  | .workerRaised i exc now => p.workerRaised i exc now
  | .throwCancelled i now => p.throwCancelled i now
  | .doneCallback i => p.doneCallback i
  | .stop => if p.mgr.gathering.isNone then some p.stop else none
  | .stopped =>
    match p.mgr.gathering with
    | some gathered => if gathered.all p.mgr.done then some p.stopped else none
    | none => none
  | .reload workers recovery limits => some (p.reload workers recovery limits)

end Process

/-- What a crash leaves of a step from `w` to `w'`: its writes but the last
`lost` of them, and no trace outside the database. -/
def World.crashed (w w' : World) (lost : ℕ) : Option World :=
  if w.past.length + lost ≤ w'.past.length then
    match w'.versions.drop lost with
    | store :: past => some { w with store := store, past := past }
    | [] => none
  else none

theorem World.crashed_eq_some {w w' w'' : World} {lost : ℕ} : w.crashed w' lost = some w'' ↔
    w.past.length + lost ≤ w'.past.length ∧ ∃ store past,
      w'.versions.drop lost = store :: past ∧ { w with store := store, past := past } = w'' := by
  unfold World.crashed
  split
  · next hle =>
    cases w'.versions.drop lost with
    | nil => simp
    | cons store past => simp [hle]
  · next hle => simp [hle]

inductive Bridge
  | down (w : World)
  | up (p : Process)

structure Settings where
  workers : List WorkerConfig
  recovery : RecoveryConfig
  limits : LimitsConfig

/-- `crash` falls between two steps, the other two within one. -/
inductive Event
  | start (settings : Settings) (now : String)
  | startCrash (settings : Settings) (now : String) (lost : ℕ)
  | act (action : Action)
  | actCrash (action : Action) (lost : ℕ)
  | crash

namespace Bridge

def world : Bridge → World
  | down w => w
  | up p => p.world

/-- `start`, if no write of it raises. -/
def started (w : World) (settings : Settings) (now : String) : Option Process :=
  match Process.start w settings.workers settings.recovery settings.limits now with
  | .ok p => some p
  | .error _ => none

def step (host : Host) : Bridge → Event → Option Bridge
  | down w, .start settings now => (started w settings now).map up
  | down w, .startCrash settings now lost =>
    (started w settings now).bind fun p => (w.crashed p.world lost).map down
  | up p, .act action => (p.act host action).map up
  | up p, .actCrash action lost =>
    (p.act host action).bind fun p' => (p.world.crashed p'.world lost).map down
  | up p, .crash => some (down p.world)
  | _, _ => none

inductive Steps (host : Host) : Bridge → Event → Bridge → Prop
  | started (w : World) (settings : Settings) (now : String) (p : Process)
      (h : Bridge.started w settings now = some p) :
      Steps host (down w) (.start settings now) (up p)
  | startCrashed (w : World) (settings : Settings) (now : String) (lost : ℕ) (p : Process)
      (w' : World) (h : Bridge.started w settings now = some p)
      (hcrash : w.crashed p.world lost = some w') :
      Steps host (down w) (.startCrash settings now lost) (down w')
  | acted (p : Process) (action : Action) (p' : Process) (h : p.act host action = some p') :
      Steps host (up p) (.act action) (up p')
  | actCrashed (p : Process) (action : Action) (lost : ℕ) (p' : Process) (w : World)
      (h : p.act host action = some p') (hcrash : p.world.crashed p'.world lost = some w) :
      Steps host (up p) (.actCrash action lost) (down w)
  | crashed (p : Process) : Steps host (up p) .crash (down p.world)

theorem step_steps {host : Host} {b b' : Bridge} {e : Event} (h : b.step host e = some b') :
    Steps host b e b' := by
  cases b with
  | down w =>
    cases e with
    | start settings now =>
      obtain ⟨p, hp, rfl⟩ := Option.map_eq_some_iff.mp h
      exact .started _ _ _ p hp
    | startCrash settings now lost =>
      obtain ⟨p, hp, hw⟩ := Option.bind_eq_some_iff.mp h
      obtain ⟨w', hcrash, rfl⟩ := Option.map_eq_some_iff.mp hw
      exact .startCrashed _ _ _ _ p w' hp hcrash
    | act | actCrash | crash => cases h
  | up p =>
    cases e with
    | start | startCrash => cases h
    | act a =>
      obtain ⟨p', hp, rfl⟩ := Option.map_eq_some_iff.mp h
      exact .acted _ _ p' hp
    | actCrash a lost =>
      obtain ⟨p', hp, hw⟩ := Option.bind_eq_some_iff.mp h
      obtain ⟨w, hcrash, rfl⟩ := Option.map_eq_some_iff.mp hw
      exact .actCrashed _ _ _ p' w hp hcrash
    | crash =>
      cases h
      exact .crashed p

/-- Every run begins with an empty database and no process. -/
def machine (host : Host) : Runs.Machine Bridge Event := ⟨down World.empty, step host⟩

end Bridge

namespace Sample

def prompt : Text := "---\nworking_directory: /srv\n---\nbuild".toList

/-- A host that loads the frontmatter of `prompt`. -/
def host : Host where
  safeLoad body :=
    if body = "working_directory: /srv".toList then
      some (.dict [(.str "working_directory".toList, .str "/srv".toList)]
        (.ok "\x7b'working_directory': '/srv'\x7d".toList))
    else none
  resolve _ := .error .osError

def worker (maxConcurrentTasks : ℕ) (hpos : 1 ≤ maxConcurrentTasks) : WorkerConfig where
  workerId := "w"
  allowedModes := [.async]
  timeoutLimits := ⟨30, 300⟩
  filesystem := ⟨[], ["/srv".toList], false⟩
  maxConcurrentTasks := maxConcurrentTasks
  maxConcurrentTasks_pos := hpos

theorem oneSlot : 1 ≤ 1 := le_rfl

theorem unlimited : ∀ k ∈ (none : Option ℕ), 1 ≤ k := nofun

def limits (perWorkerActive : Option ℕ) (hpos : ∀ k ∈ perWorkerActive, 1 ≤ k) : LimitsConfig where
  globalPendingTasks := 4
  globalActiveTasks := 4
  perWorkerPendingTasks := 4
  perWorkerActiveTasks := perWorkerActive
  syncActiveTasks := 4
  globalActiveTasks_pos := by decide
  perWorkerActiveTasks_pos := hpos
  syncActiveTasks_pos := by decide

def workers : List WorkerConfig := [worker 1 le_rfl]

def breaker : CircuitBreakerConfig where
  failureThreshold := 1
  recoverySeconds := 30
  failureThreshold_pos := le_rfl
  recoverySeconds_pos := by decide

def settings (policy : RecoveryPolicy) (delaySeconds : ℚ) : Settings where
  workers := workers
  recovery := ⟨policy, delaySeconds⟩
  limits := limits none unlimited

def call (taskId : String) (key : Option String) : Event :=
  .act (.call ⟨"w", prompt, key⟩ taskId "t0")

end Sample

end WorkerBridge
