import WorkerBridge.Config
import WorkerBridge.TaskState
import Mathlib.Logic.Function.Basic

namespace WorkerBridge

structure MetricsRegistry where
  tasksCreated : String × Mode → ℕ
  tasksCompleted : String × TaskState → ℕ
  workerFailures : String → ℕ
  circuitOpen : String → ℕ
  workerCallCount : String → ℕ

namespace MetricsRegistry

/-- `counter[key] += 1`. -/
def bump {κ : Type*} [DecidableEq κ] (counter : κ → ℕ) (key : κ) : κ → ℕ :=
  Function.update counter key (counter key + 1)

theorem bump_apply {κ : Type*} [DecidableEq κ] (counter : κ → ℕ) (key k : κ) :
    bump counter key k = counter k + if key = k then 1 else 0 := by
  unfold bump
  by_cases h : key = k
  · rw [h, Function.update_self, if_pos rfl]
  · rw [Function.update_of_ne (Ne.symm h), if_neg h, Nat.add_zero]

def zero : MetricsRegistry := ⟨fun _ => 0, fun _ => 0, fun _ => 0, fun _ => 0, fun _ => 0⟩

def incTaskCreated (metrics : MetricsRegistry) (workerId : String) (mode : Mode) :
    MetricsRegistry :=
  { metrics with tasksCreated := bump metrics.tasksCreated (workerId, mode) }

def incTaskCompleted (metrics : MetricsRegistry) (workerId : String) (state : TaskState) :
    MetricsRegistry :=
  { metrics with tasksCompleted := bump metrics.tasksCompleted (workerId, state) }

theorem tasksCreated_inc (metrics : MetricsRegistry) (workerId w : String) (mode m : Mode) :
    (metrics.incTaskCreated workerId mode).tasksCreated (w, m) =
      metrics.tasksCreated (w, m) + if workerId = w ∧ mode = m then 1 else 0 := by
  unfold incTaskCreated
  simp only [bump_apply, Prod.mk.injEq]

theorem tasksCompleted_inc (metrics : MetricsRegistry) (workerId w : String)
    (state s : TaskState) :
    (metrics.incTaskCompleted workerId state).tasksCompleted (w, s) =
      metrics.tasksCompleted (w, s) + if workerId = w ∧ state = s then 1 else 0 := by
  unfold incTaskCompleted
  simp only [bump_apply, Prod.mk.injEq]

def incWorkerFailure (metrics : MetricsRegistry) (workerId : String) : MetricsRegistry :=
  { metrics with workerFailures := bump metrics.workerFailures workerId }

def incCircuitOpen (metrics : MetricsRegistry) (workerId : String) : MetricsRegistry :=
  { metrics with circuitOpen := bump metrics.circuitOpen workerId }

/-- `observe_worker_call`, without the duration it adds to the sum and buckets. -/
def observeWorkerCall (metrics : MetricsRegistry) (workerId : String) : MetricsRegistry :=
  { metrics with workerCallCount := bump metrics.workerCallCount workerId }

theorem workerCallCount_observe (metrics : MetricsRegistry) (workerId w : String) :
    (metrics.observeWorkerCall workerId).workerCallCount w =
      metrics.workerCallCount w + if workerId = w then 1 else 0 :=
  bump_apply _ _ _

end MetricsRegistry

end WorkerBridge
