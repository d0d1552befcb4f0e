import WorkerBridge.Text
import Mathlib.Data.Rat.Defs

namespace WorkerBridge

inductive Mode
  | sync | async
  deriving DecidableEq, Repr

def Mode.value : Mode → String
  | .sync => "sync"
  | .async => "async"

inductive RecoveryPolicy
  | manual | idempotent | always
  deriving DecidableEq, Repr

structure TimeoutLimits where
  syncSeconds : ℚ
  asyncSeconds : ℚ

structure FilesystemPermissions where
  read : List Text
  write : List Text
  canonicalize : Bool

structure WorkerConfig where
  workerId : String
  allowedModes : List Mode
  timeoutLimits : TimeoutLimits
  filesystem : FilesystemPermissions
  maxConcurrentTasks : ℕ
  maxConcurrentTasks_pos : 1 ≤ maxConcurrentTasks

structure CircuitBreakerConfig where
  failureThreshold : ℕ
  recoverySeconds : ℚ
  failureThreshold_pos : 1 ≤ failureThreshold
  recoverySeconds_pos : 0 < recoverySeconds

structure RecoveryConfig where
  policy : RecoveryPolicy
  delaySeconds : ℚ

structure LimitsConfig where
  globalPendingTasks : ℕ
  globalActiveTasks : ℕ
  perWorkerPendingTasks : ℕ
  perWorkerActiveTasks : Option ℕ
  syncActiveTasks : ℕ
  globalActiveTasks_pos : 1 ≤ globalActiveTasks
  perWorkerActiveTasks_pos : ∀ k ∈ perWorkerActiveTasks, 1 ≤ k
  syncActiveTasks_pos : 1 ≤ syncActiveTasks
  deriving DecidableEq

end WorkerBridge
