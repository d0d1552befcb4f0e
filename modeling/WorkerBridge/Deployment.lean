import WorkerBridge.Bridge
import WorkerBridge.Traffic

/-!
# The bridge and its workers

The coroutines of `manager.py` on the calls of `workers.py`.  A coroutine at
`workers.call` is one call of the registry in force when it came there.
`cancel()` on the coroutine cancels what that call waits for, and the coroutine
goes on as soon as the call is over.
-/

namespace WorkerBridge

def CallPhase.result : CallPhase → Option (Except PyExc Json)
  | ended result => result
  | waiting _ | posting => none

namespace Process

variable (p : Process)

def calling (i : ℕ) : Bool :=
  match p.mgr.handles[i]? with
  | some ⟨_, .calling, _⟩ => true
  | _ => false

def asked (i : ℕ) : Bool :=
  match p.mgr.handles[i]? with
  | some h => h.cancelRequested
  | none => false

def accepts (host : Host) (request : CallRequest) (taskId now : String) : Bool :=
  match p.call host request taskId now with
  | .ok (p', _) => decide (p'.mgr.handles.length ≠ p.mgr.handles.length)
  | .error _ => false

end Process

/-- The steps of the manager that neither enter nor leave `workers.call`. -/
def Action.ofManager (p : Process) : Action → Bool
  | .call .. | .check _ | .cancel .. | .doneCallback _ | .stop | .stopped => true
  | .throwCancelled i _ => !p.calling i
  | .resume .. | .workerReturned .. | .workerRaised .. | .reload .. => false

/-- A process and its calls.  `owners` gives the coroutine of each call, and none
to a sync call.  `returning` is the coroutine whose call is over while it has not
gone on.  `posted` lists the task of every POST of an async call. -/
structure Running where
  process : Process
  traffic : Traffic
  owners : List (Option ℕ)
  returning : Option (ℕ × Except PyExc Json)
  posted : List String

/-- What the event loop can do.  `goOn` follows the end of a call at once. -/
inductive Turn
  | manager (action : Action)
  | reload (workers : List WorkerConfig) (breaker : CircuitBreakerConfig)
      (recovery : RecoveryConfig) (limits : LimitsConfig)
  | resume (i : ℕ) (attemptId now : String)
  | proceed (j : ℕ)
  | respond (j : ℕ) (response : Except PyExc Json)
  | goOn (now : String)
  | abort (j : ℕ) (now : String)
  | tick (seconds : ℚ)
  | callSync (workerId : String)
  | cancelSync (j : ℕ)

namespace Running

variable (d : Running)

def owner (j : ℕ) : Option ℕ := d.owners[j]?.join

def taskOf (j : ℕ) : Option String :=
  (d.owner j).bind fun i => d.process.mgr.handles[i]?.map Handle.taskId

def current : ℕ := d.traffic.registries.length - 1

/-- `cancel()` on the coroutine of the call `j`, handed on to the call. -/
def tell (traffic : Traffic) (j : ℕ) : Traffic :=
  match d.owner j, traffic.calls[j]? with
  | some i, some call =>
    if d.process.asked i && !call.cancelRequested then (traffic.step (.cancel j)).getD traffic
    else traffic
  | _, _ => traffic

/-- Every coroutine that was cancelled has its call cancelled. -/
def relay : Running :=
  { d with traffic := (List.range d.traffic.calls.length).foldl d.tell d.traffic }

def note (posting : Bool) (taskId : Option String) : List String :=
  match posting, taskId with
  | true, some taskId => taskId :: d.posted
  | _, _ => d.posted

/-- `workers.call` of the coroutine `i`, up to its first await. -/
def send (i : ℕ) : Option Running :=
  match d.process.world.calls with
  | [] => none
  | sent :: _ => (d.traffic.step (.call d.current sent.workerId)).map fun traffic =>
    let phase := traffic.calls[d.traffic.calls.length]?.map Call.phase
    { d with
      traffic := traffic
      owners := d.owners ++ [some i]
      -- An open circuit or an unknown worker raises before any await.
      returning := (phase.bind CallPhase.result).map fun result => (i, result)
      posted := d.note (phase.any CallPhase.isPosting) (some sent.taskId) }

/-- A turn of the event loop while no coroutine is under way. -/
def between (host : Host) : Turn → Option Running
  | .manager action =>
    if action.ofManager d.process then
      (d.process.act host action).map fun p => relay { d with process := p }
    else none
  | .reload workers breaker recovery limits =>
    (d.traffic.step (.reload workers breaker)).map fun traffic =>
      { d with process := d.process.reload workers recovery limits, traffic := traffic }
  | .resume i attemptId now =>
    (d.process.resume host i attemptId now).bind fun p =>
      if p.calling i then send { d with process := p } i else some { d with process := p }
  | .proceed j =>
    (d.traffic.step (.resume j)).map fun traffic =>
      { d with traffic := traffic, posted := d.note true (d.taskOf j) }
  | .respond j response =>
    (d.traffic.step (.respond j response)).map fun traffic =>
      { d with
        traffic := traffic
        returning := (d.owner j).bind fun i =>
          ((traffic.calls[j]?.map Call.phase).bind CallPhase.result).map fun result => (i, result) }
  | .abort j now =>
    (d.traffic.step (.throwCancelled j)).bind fun traffic =>
      match d.owner j with
      | some i => (d.process.throwCancelled i now).map fun p =>
        { d with process := p, traffic := traffic }
      | none => some { d with traffic := traffic }
  | .tick seconds =>
    (d.traffic.step (.tick seconds)).map fun traffic => { d with traffic := traffic }
  | .callSync workerId =>
    (d.traffic.step (.call d.current workerId)).map fun traffic =>
      { d with traffic := traffic, owners := d.owners ++ [none] }
  | .cancelSync j =>
    if d.owner j = none then
      (d.traffic.step (.cancel j)).map fun traffic => { d with traffic := traffic }
    else none
  | .goOn _ => none

/-- The coroutine `i` once its call has returned or raised. -/
def goOn (i : ℕ) (result : Except PyExc Json) (now : String) : Option Running :=
  (match result with
    | .ok data => d.process.workerReturned i data now
    | .error exc => d.process.workerRaised i exc now).map fun p =>
      { d with process := p, returning := none }

def advance (host : Host) (turn : Turn) : Option Running :=
  match d.returning, turn with
  | none, turn => d.between host turn
  | some (i, result), .goOn now => d.goOn i result now
  | some _, _ => none

end Running

inductive Deployment
  | down (w : World) (posted : List String)
  | up (d : Running)

inductive Incident
  | start (settings : Settings) (breaker : CircuitBreakerConfig) (now : String)
  | startCrash (settings : Settings) (now : String) (lost : ℕ)
  | turn (turn : Turn)
  | turnCrash (turn : Turn) (lost : ℕ)
  | crash

namespace Deployment

def world : Deployment → World
  | down w _ => w
  | up d => d.process.world

def posted : Deployment → List String
  | down _ posted => posted
  | up d => d.posted

def step (host : Host) : Deployment → Incident → Option Deployment
  | down w posted, .start settings breaker now =>
    (Bridge.started w settings now).map fun p =>
      up ⟨p, (Traffic.machine settings.workers breaker).start, [], none, posted⟩
  | down w posted, .startCrash settings now lost =>
    (Bridge.started w settings now).bind fun p =>
      (w.crashed p.world lost).map fun w => down w posted
  | up d, .turn turn => (d.advance host turn).map up
  -- A turn that is cut short has not come to its POST.
  | up d, .turnCrash turn lost =>
    (d.advance host turn).bind fun d' =>
      (d.process.world.crashed d'.process.world lost).map fun w => down w d.posted
  | up d, .crash => some (down d.process.world d.posted)
  | _, _ => none

/-- What one incident does, from a deployment that is down or from one that runs. -/
inductive Steps (host : Host) : Deployment → Incident → Deployment → Prop
  | started (w : World) (posted : List String) (settings : Settings)
      (breaker : CircuitBreakerConfig) (now : String) (p : Process)
      (h : Bridge.started w settings now = some p) :
      Steps host (down w posted) (.start settings breaker now)
        (up ⟨p, (Traffic.machine settings.workers breaker).start, [], none, posted⟩)
  | startCrashed (w : World) (posted : List String) (settings : Settings) (now : String) (lost : ℕ)
      (p : Process) (w' : World) (h : Bridge.started w settings now = some p)
      (hcrash : w.crashed p.world lost = some w') :
      Steps host (down w posted) (.startCrash settings now lost) (down w' posted)
  | turned (d : Running) (turn : Turn) (d' : Running) (h : d.advance host turn = some d') :
      Steps host (up d) (.turn turn) (up d')
  | turnCrashed (d : Running) (turn : Turn) (lost : ℕ) (d' : Running) (w : World)
      (h : d.advance host turn = some d')
      (hcrash : d.process.world.crashed d'.process.world lost = some w) :
      Steps host (up d) (.turnCrash turn lost) (down w d.posted)
  | crashed (d : Running) : Steps host (up d) .crash (down d.process.world d.posted)

theorem step_steps {host : Host} {s s' : Deployment} {e : Incident} (h : s.step host e = some s') :
    Steps host s e s' := by
  cases s with
  | down w posted =>
    cases e with
    | start settings breaker now =>
      obtain ⟨p, hp, rfl⟩ := Option.map_eq_some_iff.mp h
      exact .started _ _ _ _ _ p hp
    | startCrash settings now lost =>
      obtain ⟨p, hp, hw⟩ := Option.bind_eq_some_iff.mp h
      obtain ⟨w', hcrash, rfl⟩ := Option.map_eq_some_iff.mp hw
      exact .startCrashed _ _ _ _ _ p w' hp hcrash
    | turn | turnCrash | crash => cases h
  | up d =>
    cases e with
    | start | startCrash => cases h
    | turn turn =>
      obtain ⟨d', hd, rfl⟩ := Option.map_eq_some_iff.mp h
      exact .turned _ _ d' hd
    | turnCrash turn lost =>
      obtain ⟨d', hd, hw⟩ := Option.bind_eq_some_iff.mp h
      obtain ⟨w, hcrash, rfl⟩ := Option.map_eq_some_iff.mp hw
      exact .turnCrashed _ _ _ d' w hd hcrash
    | crash =>
      cases h
      exact .crashed d

def machine (host : Host) : Runs.Machine Deployment Incident := ⟨down World.empty [], step host⟩

/-- An async call is accepted while a `stop()` waits for its coroutines. -/
def acceptsWhileStopping (host : Host) : Deployment → Incident → Bool
  | up d, .turn (.manager (.call request taskId now)) =>
    d.process.mgr.gathering.isSome && d.process.accepts host request taskId now
  | _, _ => false

def quiet (host : Host) (s : Deployment) (e : Incident) : Prop := acceptsWhileStopping host s e = false

instance (host : Host) (s : Deployment) (e : Incident) : Decidable (quiet host s e) :=
  inferInstanceAs (Decidable (_ = _))

end Deployment

end WorkerBridge
