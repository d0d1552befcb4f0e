import WorkerBridge.Metrics
import WorkerBridge.Runs
import WorkerBridge.Semaphore

/-!
# The worker registry

`workers.py`: the circuit breaker, and the calls of `WorkerRegistry.call` from
one await to the next.  A reload builds a new registry and leaves the calls
under way with the registry they began in.
-/

namespace WorkerBridge

structure CircuitState where
  failures : ℕ
  downUntil : ℚ

def CircuitState.new : CircuitState := ⟨0, 0⟩

/-- `circuits`, `semaphores` and `active` are dictionaries over the workers. -/
structure WorkerRegistry where
  workers : List WorkerConfig
  breaker : CircuitBreakerConfig
  circuits : String → CircuitState
  semaphores : String → FifoSemaphore
  active : String → ℕ

/-- `_normalize_response`.  Only a dictionary has the `get` of the second try. -/
def normalizeResponse (data : Json) : Except PyExc Json :=
  let content := (((data.item "choices".toList).bind Json.first).bind (Json.item "message".toList)).bind
    (Json.item "content".toList)
  match content, data with
  | some content, _ => .ok (.obj [("content".toList, content), ("raw".toList, data)])
  | none, .obj fields =>
    let get (key : Text) : Json := (fields.lookup key).getD .null
    let content := if (get "content".toList).truthy then get "content".toList else get "text".toList
    .ok (.obj [("content".toList, content), ("raw".toList, data)])
  | none, _ => .error (.other "AttributeError".toList
      ("'".toList ++ data.typeName ++ "' object has no attribute 'get'".toList))

namespace WorkerRegistry

def find (workers : List WorkerConfig) (workerId : String) : Option WorkerConfig :=
  workers.reverse.find? fun w => decide (w.workerId = workerId)

def capacity (workers : List WorkerConfig) (workerId : String) : ℕ :=
  match find workers workerId with
  | some w => w.maxConcurrentTasks
  | none => 0

def new (workers : List WorkerConfig) (breaker : CircuitBreakerConfig) : WorkerRegistry where
  workers := workers
  breaker := breaker
  circuits _ := .new
  semaphores workerId := .new (capacity workers workerId)
  active _ := 0

variable (reg : WorkerRegistry)

def get (workerId : String) : Except PyExc WorkerConfig :=
  match find reg.workers workerId with
  | some w => .ok w
  | none => .error (.unknownWorker workerId)

def assertAvailable (now : ℚ) (workerId : String) : Except PyExc Unit :=
  if now < (reg.circuits workerId).downUntil then .error (.workerUnavailable workerId) else .ok ()

def recordSuccess (workerId : String) : WorkerRegistry :=
  { reg with circuits := Function.update reg.circuits workerId .new }

def recordFailure (now : ℚ) (metrics : MetricsRegistry) (workerId : String) :
    WorkerRegistry × MetricsRegistry :=
  let circuit := reg.circuits workerId
  let failures := circuit.failures + 1
  let metrics := metrics.incWorkerFailure workerId
  if reg.breaker.failureThreshold ≤ failures then
    ({ reg with
        circuits := Function.update reg.circuits workerId ⟨failures, now + reg.breaker.recoverySeconds⟩ },
      if circuit.downUntil ≤ now then metrics.incCircuitOpen workerId else metrics)
  else
    ({ reg with circuits := Function.update reg.circuits workerId ⟨failures, circuit.downUntil⟩ },
      metrics)

def setSemaphore (workerId : String) (semaphore : FifoSemaphore) : WorkerRegistry :=
  { reg with semaphores := Function.update reg.semaphores workerId semaphore }

def enter (workerId : String) (semaphore : FifoSemaphore) : WorkerRegistry :=
  { reg.setSemaphore workerId semaphore with
    active := Function.update reg.active workerId (reg.active workerId + 1) }

/-- The way out: `finally`, and the release of the semaphore. -/
def leave (metrics : MetricsRegistry) (workerId : String) : WorkerRegistry × MetricsRegistry :=
  ({ reg.setSemaphore workerId (reg.semaphores workerId).release with
      active := Function.update reg.active workerId (reg.active workerId - 1) },
    metrics.observeWorkerCall workerId)

/-- What the response of a worker makes of the registry, up to `finally`.  It is
`.error` when the request or its decoding raised. -/
def receive (now : ℚ) (metrics : MetricsRegistry) (workerId : String)
    (response : Except PyExc Json) : (WorkerRegistry × MetricsRegistry) × Except PyExc Json :=
  match response with
  | .error exc => (reg.recordFailure now metrics workerId, .error exc)
  | .ok data =>
    -- Success is recorded before the body is read, inside the same `try`.
    let reg := reg.recordSuccess workerId
    match normalizeResponse data with
    | .ok result => ((reg, metrics), .ok result)
    | .error exc => (reg.recordFailure now metrics workerId, .error exc)

end WorkerRegistry

/-- Where a call stands.  `ended none` is one that was cancelled. -/
inductive CallPhase
  | waiting (ticket : ℕ)
  | posting
  | ended (result : Option (Except PyExc Json))

structure Call where
  registry : ℕ
  workerId : String
  started : ℚ
  phase : CallPhase
  cancelRequested : Bool

/-- A POST that was started, with the circuit of its worker then. -/
structure Post where
  registry : ℕ
  workerId : String
  time : ℚ
  downUntil : ℚ

/-- Every registry there has been, the last one in force, and every call. -/
structure Traffic where
  registries : List WorkerRegistry
  calls : List Call
  now : ℚ
  metrics : MetricsRegistry
  posts : List Post

/-- The steps of the calls.  `call` names the registry it is made on: a caller
may hold an earlier one than the last. -/
inductive TrafficEvent
  | tick (seconds : ℚ)
  | call (registry : ℕ) (workerId : String)
  | resume (j : ℕ)
  | respond (j : ℕ) (response : Except PyExc Json)
  | cancel (j : ℕ)
  | throwCancelled (j : ℕ)
  | reload (workers : List WorkerConfig) (breaker : CircuitBreakerConfig)

namespace Traffic

variable (s : Traffic)

def setRegistry (r : ℕ) (reg : WorkerRegistry) : Traffic :=
  { s with registries := s.registries.set r reg }

def setPhase (j : ℕ) (call : Call) (phase : CallPhase) : Traffic :=
  { s with calls := s.calls.set j { call with phase := phase } }

def post (r : ℕ) (reg : WorkerRegistry) (workerId : String) : Traffic :=
  { s with posts := ⟨r, workerId, s.now, (reg.circuits workerId).downUntil⟩ :: s.posts }

def call (r : ℕ) (reg : WorkerRegistry) (workerId : String) : Traffic :=
  let started (s : Traffic) (phase : CallPhase) : Traffic :=
    { s with calls := s.calls ++ [⟨r, workerId, s.now, phase, false⟩] }
  match reg.get workerId, reg.assertAvailable s.now workerId with
  | .error exc, _ => started s (.ended (some (.error exc)))
  | .ok _, .error exc => started s (.ended (some (.error exc)))
  | .ok _, .ok _ =>
    -- The circuit is not looked at again after a wait.
    let semaphore := reg.semaphores workerId
    if semaphore.locked then
      started (s.setRegistry r (reg.setSemaphore workerId semaphore.enqueue))
        (.waiting semaphore.tickets)
    else
      started ((s.setRegistry r (reg.enter workerId semaphore.take)).post r reg workerId) .posting

/-- A waiter that was granted a slot goes on to its POST. -/
def resume (j : ℕ) (call : Call) (reg : WorkerRegistry) (ticket : ℕ) : Traffic :=
  let semaphore := (reg.semaphores call.workerId).resume ticket
  ((s.setRegistry call.registry (reg.enter call.workerId semaphore)).post call.registry reg
    call.workerId).setPhase j call .posting

def respond (j : ℕ) (call : Call) (reg : WorkerRegistry) (response : Except PyExc Json) : Traffic :=
  let ((reg, metrics), result) := reg.receive s.now s.metrics call.workerId response
  let (reg, metrics) := reg.leave metrics call.workerId
  { (s.setRegistry call.registry reg).setPhase j call (.ended (some result)) with
    metrics := metrics }

def cancel (j : ℕ) (call : Call) (reg : WorkerRegistry) : Traffic :=
  let s := { s with calls := s.calls.set j { call with cancelRequested := true } }
  match call.phase with
  | .waiting ticket =>
    s.setRegistry call.registry
      (reg.setSemaphore call.workerId ((reg.semaphores call.workerId).cancelFuture ticket))
  | _ => s

/-- `CancelledError`, which is no `Exception` and records no failure. -/
def throwCancelled (j : ℕ) (call : Call) (reg : WorkerRegistry) : Option Traffic :=
  match call.phase with
  | .waiting ticket =>
    some ((s.setRegistry call.registry
      (reg.setSemaphore call.workerId ((reg.semaphores call.workerId).abandon ticket))).setPhase
        j call (.ended none))
  | .posting =>
    let (reg, metrics) := reg.leave s.metrics call.workerId
    some { (s.setRegistry call.registry reg).setPhase j call (.ended none) with metrics := metrics }
  | .ended _ => none

def lookup (j : ℕ) : Option (Call × WorkerRegistry) :=
  s.calls[j]?.bind fun call => s.registries[call.registry]?.map fun reg => (call, reg)

def step : TrafficEvent → Option Traffic
  | .tick seconds => if 0 ≤ seconds then some { s with now := s.now + seconds } else none
  | .call r workerId => s.registries[r]?.map fun reg => s.call r reg workerId
  | .resume j => (s.lookup j).bind fun (call, reg) =>
    match call.phase with
    | .waiting ticket =>
      if call.cancelRequested = false ∧
          (reg.semaphores call.workerId).future ticket = some .granted then
        some (s.resume j call reg ticket)
      else none
    | _ => none
  | .respond j response => (s.lookup j).bind fun (call, reg) =>
    match call.phase with
    | .posting => if call.cancelRequested then none else some (s.respond j call reg response)
    | _ => none
  | .cancel j => (s.lookup j).bind fun (call, reg) =>
    match call.phase with
    | .ended _ => none
    | _ => some (s.cancel j call reg)
  | .throwCancelled j => (s.lookup j).bind fun (call, reg) =>
    if call.cancelRequested then s.throwCancelled j call reg else none
  | .reload workers breaker =>
    some { s with registries := s.registries ++ [.new workers breaker] }

/-- One registry and no call.  The clock has never been before zero. -/
def machine (workers : List WorkerConfig) (breaker : CircuitBreakerConfig) :
    Runs.Machine Traffic TrafficEvent :=
  ⟨⟨[.new workers breaker], [], 0, .zero, []⟩, step⟩

end Traffic

end WorkerBridge
