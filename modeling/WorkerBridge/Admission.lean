import WorkerBridge.Effects

namespace WorkerBridge

open TaskState

def Manager.Saturated (m : Manager) (store : Store) (workerId : String) : Prop :=
  m.limits.globalPendingTasks ≤ store.countByStates queuedStates none ∨
  m.limits.perWorkerPendingTasks ≤ store.countByStates queuedStates (some workerId) ∨
  m.limits.globalActiveTasks ≤ m.activeCount ∨
  ∃ k ∈ m.limits.perWorkerActiveTasks, k ≤ store.countByStates activeStates (some workerId)

theorem Manager.enforceAsyncLimits_cases (m : Manager) (store : Store) (workerId : String) :
    (¬ m.Saturated store workerId ∧ m.enforceAsyncLimits store workerId = .ok ()) ∨
      (m.Saturated store workerId ∧ ∃ message scope,
        m.enforceAsyncLimits store workerId = .error (.saturation message 503 scope)) := by
  unfold enforceAsyncLimits
  split
  · next h => exact Or.inr ⟨Or.inl h, _, _, rfl⟩
  · next h1 =>
    split
    · next h => exact Or.inr ⟨Or.inr (Or.inl h), _, _, rfl⟩
    · next h2 =>
      split
      · next h => exact Or.inr ⟨Or.inr (Or.inr (Or.inl h)), _, _, rfl⟩
      · next h3 =>
        have hnot : (∀ k ∈ m.limits.perWorkerActiveTasks,
            ¬ k ≤ store.countByStates activeStates (some workerId)) →
            ¬ m.Saturated store workerId := by
          rintro h4 (h | h | h | ⟨k, hk, h⟩)
          · exact h1 h
          · exact h2 h
          · exact h3 h
          · exact h4 k hk h
        split
        · next hnone =>
          refine Or.inl ⟨hnot ?_, rfl⟩
          intro k hk
          rw [hnone] at hk
          cases hk
        · next perWorkerActive hsome =>
          split
          · next h => exact Or.inr ⟨Or.inr (Or.inr (Or.inr ⟨_, hsome, h⟩)), _, _, rfl⟩
          · next h4 =>
            refine Or.inl ⟨hnot ?_, rfl⟩
            intro k hk
            rw [hsome] at hk
            cases hk
            exact h4

theorem Manager.not_saturated {m : Manager} {store : Store} {workerId : String}
    (h : m.enforceAsyncLimits store workerId = .ok ()) : ¬ m.Saturated store workerId := by
  rcases m.enforceAsyncLimits_cases store workerId with ⟨hs, -⟩ | ⟨-, message, scope, herr⟩
  · exact hs
  · rw [h] at herr
    cases herr

/-- Whether the worker exists, allows async and accepts the working directory. -/
def Process.takes (p : Process) (host : Host) (request : CallRequest) : Bool :=
  match p.mgr.worker request.workerId with
  | .ok worker => decide (Mode.async ∈ worker.allowedModes) &&
      (resolveWorkingDirectory host worker request.prompt).isOk
  | .error _ => false

/-- An async call with the non-empty key of the stored row `r`, which the worker
would take. -/
structure Process.Retries (p : Process) (host : Host) (request : CallRequest) (r : TaskRecord) :
    Prop where
  row : p.row r.taskId = some r
  key : ∃ key, key ≠ "" ∧ request.idempotencyKey = some key ∧ r.idempotencyKey = some key
  takes : p.takes host request = true

theorem Process.takes_cases {p : Process} {host : Host} {request : CallRequest}
    (h : p.takes host request = true) : ∃ worker directory,
      p.mgr.worker request.workerId = .ok worker ∧ Mode.async ∈ worker.allowedModes ∧
      resolveWorkingDirectory host worker request.prompt = .ok directory := by
  unfold takes at h
  split at h
  · next worker hworker =>
    rw [Bool.and_eq_true, decide_eq_true_iff] at h
    cases hdir : resolveWorkingDirectory host worker request.prompt with
    | ok directory => exact ⟨worker, directory, hworker, h.1, hdir⟩
    | error exc =>
      rw [hdir] at h
      cases h.2
  · cases h

/-- A retry gets the task of its key unless a limit is reached.  The limits come
first, so that a retry is refused like any other call when one is. -/
theorem retry_answered {host : Host} {p : Process} {request : CallRequest} {r : TaskRecord}
    (h : p.Retries host request r) (taskId now : String) :
    (¬ p.mgr.Saturated p.store request.workerId →
      p.call host request taskId now = .ok
        (⟨{ p.world with answers := ⟨request.idempotencyKey, r.taskId⟩ :: p.world.answers }, p.mgr⟩,
          .task (taskResponse r))) ∧
    (p.mgr.Saturated p.store request.workerId → ∃ message scope,
      p.call host request taskId now = .error (.saturation message 503 scope)) := by
  obtain ⟨worker, directory, hworker, hmode, hdir⟩ := Process.takes_cases h.takes
  refine ⟨?_, ?_⟩
  · intro hs
    rcases p.mgr.enforceAsyncLimits_cases p.store request.workerId with ⟨-, hok⟩ | ⟨hsat, -⟩
    · -- The lookup finds the row, since keys are unique.
      obtain ⟨key, hne, hreq, hkey⟩ := h.key
      obtain ⟨hmem, -⟩ := Store.mem_of_get h.row
      have hfound := Store.getByIdempotencyKey_of_mem hmem hkey
      have hget : p.store.createOrGet (TaskRecord.new taskId request.workerId request.prompt
          (some directory) request.idempotencyKey worker.timeoutLimits.asyncSeconds now) =
          .ok (p.store, r, false) := by
        unfold Store.createOrGet TaskRecord.new
        rw [hreq]
        simp only [if_neg hne]
        rw [show p.store.getByIdempotencyKey key = some r from hfound]
      unfold Process.call
      simp only [bind, Except.bind, hworker, hdir, hmode, not_true_eq_false, if_false, hok, hget]
      rfl
    · exact absurd hsat hs
  · intro hs
    rcases p.mgr.enforceAsyncLimits_cases p.store request.workerId with
      ⟨hnot, -⟩ | ⟨-, message, scope, herr⟩
    · exact absurd hs hnot
    · refine ⟨message, scope, ?_⟩
      unfold Process.call
      simp only [bind, Except.bind, hworker, hdir, hmode, not_true_eq_false, if_false, herr]

def Sample.capped : Settings :=
  { Sample.settings .manual 0 with limits := Sample.limits (some 1) (by decide) }

def Sample.retry : CallRequest := ⟨"w", prompt, some "k"⟩

def Sample.retries (p : Process) : Bool :=
  (p.row "a").any (fun r => decide (r.idempotencyKey = some "k")) && p.takes host retry

theorem Sample.retries_row {p : Process} (h : retries p = true) :
    ∃ r, p.row "a" = some r ∧ p.Retries host retry r := by
  unfold retries at h
  rw [Bool.and_eq_true] at h
  obtain ⟨hkey, htakes⟩ := h
  cases hr : p.row "a" with
  | none =>
    rw [hr] at hkey
    cases hkey
  | some r =>
    rw [hr] at hkey
    have hid := Store.taskId_of_get hr
    exact ⟨r, rfl, hid ▸ hr, ⟨"k", by decide, rfl, of_decide_eq_true hkey⟩, htakes⟩

def Sample.admits : Bridge → Bool
  | .down _ => false
  | .up p => retries p && (p.mgr.enforceAsyncLimits p.store "w").isOk

def Sample.refuses : Bridge → Bool
  | .down _ => false
  | .up p => retries p && match p.call host retry "b" "t2" with
    | .error (.saturation _ _ _) => true
    | _ => false

/-- A retry while the task is pending is answered with it. -/
theorem retry_answered_pending : ∃ (p : Process) (r : TaskRecord),
    (Bridge.machine Sample.host).Reachable Runs.anyStep (.up p) ∧ p.row "a" = some r ∧
    ∃ p', p.call Sample.host Sample.retry "b" "t2" = .ok (p', .task (taskResponse r)) := by
  obtain ⟨b, hb, hp⟩ := Runs.Machine.exists_reachable_of_run (Bridge.machine Sample.host)
    Runs.anyStep [.start Sample.capped "t0", Sample.call "a" (some "k")]
    Sample.admits (by decide)
  cases b with
  | down w => cases hp
  | up p =>
    obtain ⟨hp, hcall⟩ := (Bool.and_eq_true _ _).mp hp
    obtain ⟨r, hr, hretries⟩ := Sample.retries_row hp
    refine ⟨p, r, hb, hr, _, (retry_answered hretries "b" "t2").1 ?_⟩
    rcases p.mgr.enforceAsyncLimits_cases p.store "w" with ⟨hnot, -⟩ | ⟨-, message, scope, herr⟩
    · exact hnot
    · rw [herr] at hcall
      cases hcall

/-- The task that fills the limit is the one asked for. -/
theorem retry_refused : ∃ (p : Process) (r : TaskRecord),
    (Bridge.machine Sample.host).Reachable Runs.anyStep (.up p) ∧ p.row "a" = some r ∧
    p.Retries Sample.host Sample.retry r ∧ ∃ message status scope,
      p.call Sample.host Sample.retry "b" "t2" = .error (.saturation message status scope) := by
  obtain ⟨b, hb, hp⟩ := Runs.Machine.exists_reachable_of_run (Bridge.machine Sample.host)
    Runs.anyStep [.start Sample.capped "t0", Sample.call "a" (some "k"), .act (.resume 0 "r" "t1")]
    Sample.refuses (by decide)
  cases b with
  | down w => cases hp
  | up p =>
    obtain ⟨hp, hcall⟩ := (Bool.and_eq_true _ _).mp hp
    obtain ⟨r, hr, hretries⟩ := Sample.retries_row hp
    refine ⟨p, r, hb, hr, hretries, ?_⟩
    split at hcall
    · next message status scope herr => exact ⟨message, status, scope, herr⟩
    · cases hcall

end WorkerBridge
