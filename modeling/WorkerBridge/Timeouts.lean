import WorkerBridge.Preservation

namespace WorkerBridge

open TaskState

namespace PyExc

/-- A timeout, where `httpxTimeout` tells the subclasses of `httpx.TimeoutException`. -/
def isTimeout (httpxTimeout : PyExc → Bool) (exc : PyExc) : Bool :=
  exc.isTimeoutError || httpxTimeout exc

def message (exc : PyExc) : Text := exc.str.orElse exc.className

def mentionsTimeout (exc : PyExc) : Bool := exc.message.lower.has "timeout".toList

end PyExc

namespace Process

variable {p p' : Process} {taskId now : String} {task : TaskRecord} {exc : PyExc}

theorem handleException_state (exc : PyExc) (now : String) (hrow : p.row taskId = some task)
    (hs : task.state = running) : ∃ r, (p.handleException taskId exc now).row taskId = some r ∧
      r.state = if exc.isTimeoutError || exc.mentionsTimeout then timedOut else failed := by
  have hlive : task.state ∉ terminalStates := by rw [hs]; decide
  have hset {state : TaskState} (error : Text) (hedge : state ∈ allowedTransitions running) :
      ∃ r, (p.failTerminal taskId state error now).row taskId = some r ∧ r.state = state := by
    obtain ⟨store, hstore, hfail⟩ := failTerminal_running error now hrow hs hedge
    rw [hfail]
    exact ⟨_, (rowSet hstore hrow rfl rfl).self, rfl⟩
  unfold handleException
  by_cases hexc : exc.isTimeoutError = true
  · simp only [hexc, if_true, Bool.true_or]
    exact hset _ (by decide)
  · simp only [hexc, Bool.false_eq_true, if_false, hrow, if_neg hlive, Bool.false_or]
    show ∃ r, (p.failTerminal taskId (if exc.mentionsTimeout then timedOut else failed) exc.message
      now).row taskId = some r ∧ _
    cases exc.mentionsTimeout with
    | true => exact hset _ (by decide)
    | false => exact hset _ (by decide)

/-- The row is timed out if the exception is a timeout, and failed if it is none. -/
def Classified (httpxTimeout : PyExc → Bool) (exc : PyExc) (taskId : String) (p : Process) : Prop :=
  ∃ r, p.row taskId = some r ∧ r.state = if exc.isTimeout httpxTimeout then timedOut else failed

theorem classified_handleException_iff (httpxTimeout : PyExc → Bool) (i : ℕ) (now : String)
    (hrow : p.row taskId = some task) (hs : task.state = running) :
    ((p.handleException taskId exc now).setPhase i .finished).Classified httpxTimeout exc taskId ↔
      exc.isTimeoutError = true ∨ (httpxTimeout exc = true ↔ exc.mentionsTimeout = true) := by
  obtain ⟨r, hr, hstate⟩ := handleException_state exc now hrow hs
  have hclassified : ((p.handleException taskId exc now).setPhase i .finished).Classified
      httpxTimeout exc taskId ↔
        r.state = if exc.isTimeout httpxTimeout then timedOut else failed := by
    constructor
    · rintro ⟨r', hr', hstate'⟩
      cases hr.symm.trans hr'
      exact hstate'
    · exact fun hstate' => ⟨r, hr, hstate'⟩
  rw [hclassified, hstate, PyExc.isTimeout]
  cases exc.isTimeoutError <;> cases exc.mentionsTimeout <;> cases httpxTimeout exc <;> decide

theorem workerRaised_of_awaiting {i : ℕ} {handle : Handle} (exc : PyExc) (now : String)
    (hawait : p.awaiting i = some handle) : p.workerRaised i exc now =
      some ((p.handleException handle.taskId exc now).setPhase i .finished) := by
  unfold workerRaised
  rw [hawait, Option.map_some]

/-- The row is classified right if and only if the exception is a `TimeoutError`, or its text
mentions a timeout exactly when it is one of the client. -/
theorem classified_iff {i : ℕ} {handle : Handle} (httpxTimeout : PyExc → Bool)
    (hawait : p.awaiting i = some handle) (hrow : p.row handle.taskId = some task)
    (hs : task.state = running) (h : p.workerRaised i exc now = some p') :
    p'.Classified httpxTimeout exc handle.taskId ↔
      exc.isTimeoutError = true ∨ (httpxTimeout exc = true ↔ exc.mentionsTimeout = true) := by
  rw [workerRaised_of_awaiting exc now hawait, Option.some.injEq] at h
  subst h
  exact classified_handleException_iff httpxTimeout i now hrow hs

end Process

namespace Sample

def httpxTimeout (exc : PyExc) : Bool :=
  exc.className ∈ ["TimeoutException".toList, "ConnectTimeout".toList, "ReadTimeout".toList,
    "WriteTimeout".toList, "PoolTimeout".toList]

def notFound : PyExc := .other "HTTPStatusError".toList
  "Client error '404 Not Found' for url 'http://timeout-lab/v1/chat/completions'".toList

def atWork : Bridge → Bool
  | .down _ => false
  | .up p => (p.awaiting 0).any fun handle =>
      (p.row handle.taskId).any fun task => decide (task.state = running)

theorem exists_atWork : ∃ (p : Process) (handle : Handle) (task : TaskRecord),
    (Bridge.machine host).Reachable Runs.anyStep (.up p) ∧ p.awaiting 0 = some handle ∧
      p.row handle.taskId = some task ∧ task.state = running := by
  obtain ⟨b, hb, hp⟩ := Runs.Machine.exists_reachable_of_run (Bridge.machine host) Runs.anyStep
    [.start (settings .manual 0) "t0", call "a" none, .act (.resume 0 "r" "t1")] atWork
    (by decide +kernel)
  cases b with
  | down w => cases hp
  | up p =>
    simp only [atWork, Option.any_eq_true, decide_eq_true_eq] at hp
    obtain ⟨handle, hawait, task, hrow, hs⟩ := hp
    exact ⟨p, handle, task, hb, hawait, hrow, hs⟩

end Sample

namespace Process

theorem classified_notFound : ∃ (p p' : Process) (handle : Handle) (task : TaskRecord),
    p.awaiting 0 = some handle ∧ p.row handle.taskId = some task ∧ task.state = running ∧
    p.workerRaised 0 Sample.notFound "t2" = some p' ∧
    (p'.Classified Sample.httpxTimeout Sample.notFound handle.taskId ↔
      Sample.notFound.isTimeoutError = true ∨
        (Sample.httpxTimeout Sample.notFound = true ↔
          Sample.notFound.mentionsTimeout = true)) := by
  obtain ⟨p, handle, task, -, hawait, hrow, hs⟩ := Sample.exists_atWork
  have hraised := workerRaised_of_awaiting Sample.notFound "t2" hawait
  exact ⟨p, _, handle, task, hawait, hrow, hs, hraised,
    classified_iff Sample.httpxTimeout hawait hrow hs hraised⟩

/-- A page that is not found, on a host whose name speaks of timeouts. -/
theorem notFound_times_out : ∃ (p p' : Process) (handle : Handle) (task : TaskRecord),
    (Bridge.machine Sample.host).Reachable Runs.anyStep (.up p) ∧
    p.awaiting 0 = some handle ∧ p.row handle.taskId = some task ∧ task.state = running ∧
    p.workerRaised 0 Sample.notFound "t2" = some p' ∧
    Sample.notFound.isTimeout Sample.httpxTimeout = false ∧
    ¬ p'.Classified Sample.httpxTimeout Sample.notFound handle.taskId := by
  obtain ⟨p, handle, task, hreach, hawait, hrow, hs⟩ := Sample.exists_atWork
  refine ⟨p, _, handle, task, hreach, hawait, hrow, hs,
    workerRaised_of_awaiting Sample.notFound "t2" hawait, by decide, ?_⟩
  · rw [classified_handleException_iff Sample.httpxTimeout 0 "t2" hrow hs]
    decide

end Process

end WorkerBridge
