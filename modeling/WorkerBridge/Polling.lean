import WorkerBridge.Watchdog

namespace WorkerBridge.Watchdog

variable {lib : Library} {config : WatchdogConfig} {out : Outside} {taskId : Text} {k : ℕ}

theorem continues_or_verdict (lib : Library) (config : WatchdogConfig) (out : Outside)
    (taskId : Text) (k : ℕ) :
    Continues lib config out k ∨ ∃ outcome, Verdict lib config out taskId k outcome := by
  let s : Wait :=
    ⟨deadline config out, streak lib out k, lastState lib out k, 2 * k + 1, k, []⟩
  have hs : At lib config out k s := ⟨rfl, rfl, rfl, rfl, rfl⟩
  rcases iterate_spec taskId hs with ⟨s', -, hk, -⟩ | ⟨outcome, -, hv⟩
  · exact Or.inl hk
  · exact Or.inr ⟨outcome, hv⟩

variable (lib config out taskId)

end WorkerBridge.Watchdog
