import WorkerBridge.Watchdog

namespace WorkerBridge.Watchdog

/-- A status from 500 to 599, or a network error, also one that comes while an error is read. -/
def Reply.isRetryable : Reply → Bool
  | .response _ => false
  | .httpError code _ => decide (500 ≤ code ∧ code ≤ 599)
  | .unread _ => true
  | .network _ => true

def Raised.isCaught : Raised → Bool
  | .watchdog _ => true
  | .unicodeDecodeError | .valueError | .recursionError | .osError | .unicodeEncodeError => false

/-- What `check_task` may do with a reply. -/
inductive Expected : Reply → Except Raised Json → Prop
  | returned {reply : Reply} {fields : List (Text × Json)}
      (h : fields.lookup "ok".toList ≠ some (.bool false)) (hr : reply.isRetryable = false) :
      Expected reply (.ok (.obj fields))
  | transient {reply : Reply} {message : Text} (hr : reply.isRetryable = true) :
      Expected reply (.error (.watchdog (.transient message)))
  | api {reply : Reply} {message : Text} (hr : reply.isRetryable = false) :
      Expected reply (.error (.watchdog (.api message)))

section Runs

variable (lib : Library) (config : WatchdogConfig) (out : Outside) (taskId : Text)

/-- The body is UTF-8 in which `json.loads` finds a value or an error of the syntax.  Of an HTTP
error only the body has to arrive. -/
def Readable : Reply → Prop
  | .response body => ∃ raw, lib.decode body = some raw ∧
      lib.loads raw ≠ .error .valueError ∧ lib.loads raw ≠ .error .recursionError
  | .httpError _ _ => True
  | .unread _ => False
  | .network _ => True

end Runs

variable {lib : Library} {config : WatchdogConfig} {out : Outside} {taskId : Text} {reply : Reply}

theorem expected_of_readable (h : Readable lib reply) : Expected reply (checkTask lib reply) := by
  cases reply with
  | httpError code body =>
    unfold checkTask
    dsimp only
    split
    · next hcode => exact .transient (decide_eq_true hcode)
    · next hcode => exact .api (decide_eq_false hcode)
  | unread code => exact absurd h id
  | network message => exact .transient rfl
  | response body =>
    obtain ⟨raw, hraw, hvalue, hdepth⟩ := h
    unfold checkTask
    simp only [hraw]
    cases hloads : lib.loads raw with
    | error error =>
      cases error with
      | jsonDecodeError => exact .api rfl
      | valueError => exact absurd hloads hvalue
      | recursionError => exact absurd hloads hdepth
    | ok value =>
      cases value with
      | obj fields =>
        dsimp only
        split
        · exact .api rfl
        · next hok => exact .returned hok rfl
      | null | bool | num | str | arr => exact .api rfl

theorem Expected.isCaught {raised : Raised} (h : Expected reply (.error raised)) :
    raised.isCaught = true := by
  cases h with
  | transient | api => rfl

theorem Verdict.isCaught {k : ℕ} {raised : Raised}
    (hv : Verdict lib config out taskId k (.error raised))
    (hread : out.clock (2 * k + 1) < deadline config out → Readable lib (out.reply k)) :
    raised.isCaught = true := by
  cases hv with
  | late | stateless | exhausted => rfl
  | refused hearly hr =>
    have h := expected_of_readable (hread hearly)
    rw [hr] at h
    exact h.isCaught

namespace Sample

end Sample

end WorkerBridge.Watchdog
