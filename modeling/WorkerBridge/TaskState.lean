import WorkerBridge.Json
import Mathlib.Data.List.Basic

namespace WorkerBridge

inductive TaskState
  | pending | running | completed | failed | cancelled | timedOut | recovering | retrying
  deriving DecidableEq, Repr

namespace TaskState

def value : TaskState → String
  | pending => "Pending"
  | running => "Running"
  | completed => "Completed"
  | failed => "Failed"
  | cancelled => "Cancelled"
  | timedOut => "TimedOut"
  | recovering => "Recovering"
  | retrying => "Retrying"

end TaskState

open TaskState

def terminalStates : List TaskState := [completed, failed, cancelled, timedOut]
def activeStates : List TaskState := [running, retrying]
def queuedStates : List TaskState := [pending, recovering]

def allowedTransitions : TaskState → List TaskState
  | pending => [running, cancelled, recovering]
  | recovering => [pending, running, failed, cancelled]
  | retrying => [running, failed, cancelled]
  | running => [completed, failed, cancelled, timedOut, retrying, recovering]
  | completed => []
  | failed => []
  | cancelled => []
  | timedOut => []

theorem allowedTransitions_of_terminal {s : TaskState} (h : s ∈ terminalStates) :
    allowedTransitions s = [] := by
  revert h; cases s <;> decide

theorem cancelled_mem_of_not_terminal {s : TaskState} (h : s ∉ terminalStates) :
    cancelled ∈ allowedTransitions s := by
  revert h; cases s <;> decide

/-- The exceptions that reach the modelled code.  `other` is any further
subclass of `Exception`: an HTTP error, a malformed response, a `ValueError`. -/
inductive PyExc
  | missingWorkingDirectory
  | invalidWorkingDirectory (path : Text) (allowedPaths : List Text)
  | saturation (message : Text) (statusCode : Nat) (scope : String)
  | invalidTransition (source target : TaskState)
  | unknownWorker (workerId : String)
  | workerUnavailable (workerId : String)
  | integrityError (column : String)
  | timeoutError (message : Text)
  | other (className message : Text)
  deriving DecidableEq, Repr

namespace PyExc

/-- `str(exc)`.  `str` of a `KeyError` is the `repr` of its argument. -/
def str : PyExc → Text
  | missingWorkingDirectory => "working_directory is required in YAML frontmatter".toList
  | invalidWorkingDirectory path allowedPaths =>
    let allowed := if allowedPaths.isEmpty then "(none)".toList else Text.joinComma allowedPaths
    "Specified working_directory '".toList ++ path ++ "' not in allowed paths: ".toList ++ allowed
  | saturation message _ _ => message
  | invalidTransition source target =>
    "cannot transition ".toList ++ source.value.toList ++ " -> ".toList ++ target.value.toList
  | unknownWorker workerId => "'unknown worker_id: ".toList ++ workerId.toList ++ "'".toList
  | workerUnavailable workerId =>
    "worker ".toList ++ workerId.toList ++ " circuit breaker is open".toList
  | integrityError column => "UNIQUE constraint failed: ".toList ++ column.toList
  | timeoutError message => message
  | other _ message => message

/-- `exc.__class__.__name__`. -/
def className : PyExc → Text
  | missingWorkingDirectory => "MissingWorkingDirectory".toList
  | invalidWorkingDirectory _ _ => "InvalidWorkingDirectory".toList
  | saturation _ _ _ => "SaturationError".toList
  | invalidTransition _ _ => "InvalidTransition".toList
  | unknownWorker _ => "KeyError".toList
  | workerUnavailable _ => "WorkerUnavailable".toList
  | integrityError _ => "IntegrityError".toList
  | timeoutError _ => "TimeoutError".toList
  | other name _ => name

/-- `isinstance(exc, TimeoutError)`. -/
def isTimeoutError : PyExc → Bool
  | timeoutError _ => true
  | _ => false

end PyExc

structure TaskRecord where
  taskId : String
  workerId : String
  prompt : Text
  workingDirectory : Option Text
  idempotencyKey : Option String
  dispatchAttemptId : Option String
  attemptCount : Nat
  state : TaskState
  result : Option Json
  error : Option Text
  createdAt : String
  updatedAt : String
  startedAt : Option String
  completedAt : Option String
  timeoutSeconds : ℚ

namespace TaskRecord

/-- A record as its constructor leaves it: the defaults of the class. -/
def new (taskId workerId : String) (prompt : Text) (workingDirectory : Option Text)
    (idempotencyKey : Option String) (timeoutSeconds : ℚ) (now : String) : TaskRecord where
  taskId := taskId
  workerId := workerId
  prompt := prompt
  workingDirectory := workingDirectory
  idempotencyKey := idempotencyKey
  dispatchAttemptId := none
  attemptCount := 0
  state := pending
  result := none
  error := none
  createdAt := now
  updatedAt := now
  startedAt := none
  completedAt := none
  timeoutSeconds := timeoutSeconds

/-- The copy that `transition` returns. -/
def moveTo (task : TaskRecord) (target : TaskState) (now : String) (error : Option Text)
    (result : Option Json) : TaskRecord :=
  { task with
    state := target
    updatedAt := now
    startedAt := if target = running ∧ task.startedAt = none then some now else task.startedAt
    completedAt := if target ∈ terminalStates then some now else task.completedAt
    error := error.or task.error
    result := result.or task.result }

def transition (task : TaskRecord) (target : TaskState) (now : String) (error : Option Text)
    (result : Option Json) : Except PyExc TaskRecord :=
  if target ∈ allowedTransitions task.state then .ok (task.moveTo target now error result)
  else .error (.invalidTransition task.state target)

def nextAttempt (task : TaskRecord) (attemptId now : String) : TaskRecord :=
  { task with
    dispatchAttemptId := some attemptId
    attemptCount := task.attemptCount + 1
    updatedAt := now }

theorem transition_of_mem {task : TaskRecord} {target : TaskState} {now : String}
    {error : Option Text} {result : Option Json} (h : target ∈ allowedTransitions task.state) :
    task.transition target now error result = .ok (task.moveTo target now error result) :=
  if_pos h

section Fields

variable (task : TaskRecord) (target : TaskState) (now attemptId : String) (error : Option Text)
  (result : Option Json)

@[simp] theorem moveTo_taskId : (task.moveTo target now error result).taskId = task.taskId := rfl
@[simp] theorem moveTo_workerId : (task.moveTo target now error result).workerId = task.workerId := rfl
@[simp] theorem moveTo_state : (task.moveTo target now error result).state = target := rfl
@[simp] theorem moveTo_idempotencyKey :
    (task.moveTo target now error result).idempotencyKey = task.idempotencyKey := rfl
@[simp] theorem moveTo_workingDirectory :
    (task.moveTo target now error result).workingDirectory = task.workingDirectory := rfl
@[simp] theorem moveTo_createdAt :
    (task.moveTo target now error result).createdAt = task.createdAt := rfl

@[simp] theorem nextAttempt_taskId : (task.nextAttempt attemptId now).taskId = task.taskId := rfl
@[simp] theorem nextAttempt_workerId : (task.nextAttempt attemptId now).workerId = task.workerId := rfl
@[simp] theorem nextAttempt_state : (task.nextAttempt attemptId now).state = task.state := rfl
@[simp] theorem nextAttempt_idempotencyKey :
    (task.nextAttempt attemptId now).idempotencyKey = task.idempotencyKey := rfl
@[simp] theorem nextAttempt_workingDirectory :
    (task.nextAttempt attemptId now).workingDirectory = task.workingDirectory := rfl
@[simp] theorem nextAttempt_createdAt :
    (task.nextAttempt attemptId now).createdAt = task.createdAt := rfl

end Fields

end TaskRecord

end WorkerBridge
