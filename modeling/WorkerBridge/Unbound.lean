import WorkerBridge.Effects
import WorkerBridge.Lifetime

namespace WorkerBridge

open TaskState

def Manager.bindError (m : Manager) (host : Host) (task : TaskRecord) : Option PyExc :=
  match task.workingDirectory with
  | some _ => none
  | none =>
    match m.worker task.workerId with
    | .error exc => some exc
    | .ok worker =>
      match resolveWorkingDirectory host worker task.prompt with
      | .error exc => some exc
      | .ok _ => none

/-- From `Recovering` a row can fail, but not time out; from `Pending` neither. -/
structure CanFail (task : TaskRecord) (exc : PyExc) : Prop where
  recovering : task.state = recovering
  notTimeout : exc.isTimeoutError = false
  noWord : (exc.str.orElse exc.className).lower.has "timeout".toList = false

/-- Sending the row does not raise, or raises what the row can fail with. -/
def Settles (host : Host) (m : Manager) (task : TaskRecord) : Prop :=
  ∀ exc, m.bindError host task = some exc → CanFail task exc

namespace Process

def Ended (p : Process) (taskId : String) : Prop :=
  ∃ r, p.row taskId = some r ∧ r.state ∈ terminalStates

variable {host : Host} {p q : Process} {task : TaskRecord} {taskId : String} {i : ℕ}

theorem ended_iff (hrow : p.row taskId = some task) :
    p.Ended taskId ↔ task.state ∈ terminalStates := by
  unfold Ended
  rw [hrow]
  simp

theorem failTerminal_ended (error : Text) (now : String) {state : TaskState}
    (hrow : p.row taskId = some task) (hlive : task.state ∉ terminalStates)
    (hs : state ∈ terminalStates) :
    ((p.failTerminal taskId state error now).Ended taskId ↔ state ∈ allowedTransitions task.state) ∧
      (p.failTerminal taskId state error now).mgr.handles = p.mgr.handles := by
  by_cases hedge : state ∈ allowedTransitions task.state
  · obtain ⟨store, hstore, hset⟩ := settle_ok now (some error) none hrow hedge
    have hfail : p.failTerminal taskId state error now = ⟨p.world.write store,
        { p.mgr with metrics := p.mgr.metrics.incTaskCompleted task.workerId state }⟩ := by
      unfold failTerminal
      simp only [hrow, if_neg hlive, hset]
    rw [hfail]
    have hnew := (rowSet hstore hrow rfl rfl).self
    exact ⟨⟨fun _ => hedge, fun _ => ⟨_, hnew, hs⟩⟩, rfl⟩
  · have hfail : p.failTerminal taskId state error now = p := by
      unfold failTerminal settle TaskRecord.transition
      simp only [hrow, if_neg hlive, if_neg hedge, bind, Except.bind]
    rw [hfail, ended_iff hrow]
    exact ⟨⟨fun h => absurd h hlive, fun h => absurd h hedge⟩, rfl⟩

theorem handleException_ended (exc : PyExc) (now : String) (hrow : p.row taskId = some task)
    (hs : task.state ∈ queuedStates) :
    ((p.handleException taskId exc now).Ended taskId ↔ CanFail task exc) ∧
      (p.handleException taskId exc now).mgr.handles = p.mgr.handles := by
  have hlive : task.state ∉ terminalStates := not_terminal_of_queued hs
  -- A queued row has no edge to `TimedOut`, and only a recovering one to `Failed`.
  have htimed : timedOut ∉ allowedTransitions task.state := by
    revert hs
    cases task.state <;> decide
  have hfailed : failed ∈ allowedTransitions task.state ↔ task.state = recovering := by
    revert hs
    cases task.state <;> decide
  by_cases hexc : exc.isTimeoutError = true
  · have hfail := failTerminal_ended (exc.str.orElse "worker timed out".toList) now hrow hlive
      (show timedOut ∈ terminalStates by decide)
    unfold handleException
    rw [if_pos hexc]
    refine ⟨hfail.1.trans ?_, hfail.2⟩
    exact ⟨fun h => absurd h htimed, fun h => absurd (hexc.symm.trans h.notTimeout) (by decide)⟩
  · have hno : exc.isTimeoutError = false := Bool.eq_false_iff.mpr hexc
    unfold handleException
    simp only [if_neg hexc, hrow, if_neg hlive]
    by_cases hword : (exc.str.orElse exc.className).lower.has "timeout".toList = true
    · rw [if_pos hword]
      have hfail := failTerminal_ended (exc.str.orElse exc.className) now hrow hlive
        (show timedOut ∈ terminalStates by decide)
      refine ⟨hfail.1.trans ?_, hfail.2⟩
      exact ⟨fun h => absurd h htimed, fun h => absurd (hword.symm.trans h.noWord) (by decide)⟩
    · rw [if_neg hword]
      have hfail := failTerminal_ended (exc.str.orElse exc.className) now hrow hlive
        (show failed ∈ terminalStates by decide)
      refine ⟨hfail.1.trans (hfailed.trans ?_), hfail.2⟩
      exact ⟨fun h => ⟨h, hno, Bool.eq_false_iff.mpr hword⟩, fun h => h.recovering⟩

theorem bindDirectory_error {exc : PyExc} (h : p.mgr.bindError host task = some exc) :
    p.bindDirectory host task = .error exc := by
  unfold Manager.bindError at h
  unfold bindDirectory
  cases hd : task.workingDirectory with
  | some d =>
    rw [hd] at h
    cases h
  | none =>
    simp only [hd] at h
    cases hw : p.mgr.worker task.workerId with
    | error e =>
      simp only [hw, Option.some.injEq] at h
      simp only [bind, Except.bind, h]
    | ok worker =>
      simp only [hw] at h
      cases hr : resolveWorkingDirectory host worker task.prompt with
      | error e =>
        simp only [hr, Option.some.injEq] at h
        simp only [bind, Except.bind, hr, h]
      | ok directory =>
        rw [hr] at h
        cases h

theorem bindDirectory_ok (h : p.mgr.bindError host task = none) (hrow : p.row taskId = some task) :
    ∃ p' bound, p.bindDirectory host task = .ok (p', bound) ∧ p'.mgr = p.mgr ∧
      p'.row taskId = some bound ∧ bound.state = task.state ∧ bound.workingDirectory ≠ none := by
  unfold Manager.bindError at h
  unfold bindDirectory
  cases hd : task.workingDirectory with
  | some d => exact ⟨p, task, rfl, rfl, hrow, rfl, by rw [hd]; exact Option.some_ne_none d⟩
  | none =>
    simp only [hd] at h
    cases hw : p.mgr.worker task.workerId with
    | error e =>
      rw [hw] at h
      cases h
    | ok worker =>
      simp only [hw] at h
      cases hr : resolveWorkingDirectory host worker task.prompt with
      | error e =>
        rw [hr] at h
        cases h
      | ok directory =>
        have hrow' : p.store.get ({ task with workingDirectory := some directory } :
            TaskRecord).taskId = some task := row_self hrow
        obtain ⟨store, hstore⟩ := Store.upsert_isOk hrow' rfl
        refine ⟨⟨p.world.write store, p.mgr⟩, { task with workingDirectory := some directory },
          ?_, rfl, (rowSet hstore hrow rfl rfl).self, rfl, Option.some_ne_none _⟩
        simp only [bind, Except.bind, hr]
        unfold upsert World.upsert
        rw [show p.world.store.upsert _ = .ok store from hstore]
        rfl

theorem beginAttempt_of_bind {p' : Process} {bound : TaskRecord}
    (hb : p.bindDirectory host task = .ok (p', bound)) (hd : bound.workingDirectory ≠ none)
    (attemptId now : String) :
    p.beginAttempt host task attemptId now = p'.beginAttempt host bound attemptId now := by
  have hbound : p'.bindDirectory host bound = .ok (p', bound) := by
    unfold bindDirectory
    split
    · rfl
    · next h => exact absurd h hd
  unfold beginAttempt
  rw [hb, hbound]

theorem dispatch_cases (host : Host) (i : ℕ) (attemptId now : String)
    (hrow : p.row taskId = some task) (hs : task.state ∈ queuedStates) :
    (p.mgr.bindError host task = none ∧
      ∃ p' : Process, p.dispatch host i task attemptId now = p'.setPhase i .calling ∧
        p'.mgr = p.mgr ∧ ∃ r, p'.row taskId = some r ∧ r.state = running) ∨
    ∃ exc, p.mgr.bindError host task = some exc ∧
      p.dispatch host i task attemptId now =
        (p.handleException taskId exc now).setPhase i .finished := by
  -- After the row is sent it is running; if it is not sent, its coroutine is over.
  have hid := taskId_of_row hrow
  cases hb : p.mgr.bindError host task with
  | none =>
    obtain ⟨p', bound, hbind, hmgr, hrow', hst, hd⟩ := bindDirectory_ok hb hrow
    obtain ⟨store, hstore, hbegin⟩ := beginAttempt_ok host attemptId now hrow' (hst ▸ hs) hd
    refine Or.inl ⟨rfl, ⟨{ p'.world.write store with
      calls := sentCall p'.world.lifetimes (bound.begun attemptId now)
        (decide (task.state = recovering)) :: p'.world.calls }, p'.mgr⟩, ?_, hmgr, ?_⟩
    · unfold dispatch
      rw [beginAttempt_of_bind hbind hd, hbegin]
      rfl
    · exact ⟨_, (rowSet hstore hrow' rfl rfl).self, rfl⟩
  | some exc =>
    refine Or.inr ⟨exc, rfl, ?_⟩
    unfold dispatch beginAttempt
    rw [bindDirectory_error hb, ← hid]
    rfl

/-- The coroutine `i` has read its row at most. -/
structure Waits (i : ℕ) (task : TaskRecord) (q : Process) : Prop where
  coroutine : ∃ k : Handle, q.mgr.handles[i]? = some k ∧ k.taskId = task.taskId ∧
    (k.phase = .created ∨ k.phase = .sleeping task)
  row : q.row task.taskId = some task

/-- The coroutine `i` waits for its worker, or it is over; `settles` tells how. -/
inductive Underway (i : ℕ) (taskId : String) (settles : Prop) (q : Process) : Prop
  | calling {k : Handle} {r : TaskRecord} (hat : q.mgr.handles[i]? = some k)
      (hid : k.taskId = taskId) (hph : k.phase = .calling) (hrow : q.row taskId = some r)
      (hs : r.state = running) (h : settles)
  | ended {k : Handle} (hat : q.mgr.handles[i]? = some k) (hph : k.phase.done = true)
      (h : q.Ended taskId ↔ settles)

theorem setPhase_self {phase : Phase} {k : Handle} (hat : p.mgr.handles[i]? = some k) :
    (p.setPhase i phase).mgr.handles[i]? = some { k with phase := phase } :=
  Coherent.setPhase_self hat

theorem dispatch_sent (attemptId now : String) {k : Handle} (hat : p.mgr.handles[i]? = some k)
    (hid : k.taskId = task.taskId) (hrow : p.row task.taskId = some task)
    (hs : task.state ∈ queuedStates) :
    Underway i task.taskId (Settles host p.mgr task) (p.dispatch host i task attemptId now) := by
  rcases dispatch_cases host i attemptId now hrow hs with
    ⟨hb, p', hd, hmgr, r, hrow', hr⟩ | ⟨exc, hb, hd⟩
  · rw [hd]
    refine .calling (setPhase_self (hmgr ▸ hat)) hid rfl hrow' hr ?_
    intro exc hexc
    rw [hb] at hexc
    cases hexc
  · obtain ⟨hend, hhandles⟩ := handleException_ended exc now hrow hs
    rw [hd]
    refine .ended (setPhase_self (hhandles ▸ hat)) rfl ?_
    have hsettles : CanFail task exc ↔ Settles host p.mgr task := by
      unfold Settles
      rw [hb]
      simp
    exact hend.trans hsettles

theorem Waits.resume {attemptId now : String} (h : Waits i task p) (hs : task.state ∈ queuedStates)
    (hstep : p.resume host i attemptId now = some q) :
    Waits i task q ∨ Underway i task.taskId (Settles host p.mgr task) q := by
  obtain ⟨⟨k, hat, hid, hph⟩, hrow⟩ := h
  unfold Process.resume at hstep
  obtain ⟨k', hrun, hstep⟩ := Option.bind_eq_some_iff.mp hstep
  obtain ⟨hat', -⟩ := runnable_eq_some hrun
  rw [hat] at hat'
  cases hat'
  rcases hph with hph | hph
  · simp only [hph, Option.some.injEq] at hstep
    subst hstep
    unfold runTask
    rw [hid]
    simp only [hrow, if_neg (not_terminal_of_queued hs)]
    split
    · exact Or.inl ⟨⟨_, setPhase_self hat, hid, Or.inr rfl⟩, hrow⟩
    · exact Or.inr (dispatch_sent attemptId now hat hid hrow hs)
  · simp only [hph, Option.some.injEq] at hstep
    subst hstep
    exact Or.inr (dispatch_sent attemptId now hat hid hrow hs)

/-- The steps of the coroutine `i`, apart from its cancellation. -/
def ofCoroutine (i : ℕ) : Action → Bool
  | .resume j _ _ | .workerReturned j _ _ | .workerRaised j _ _ | .doneCallback j => decide (j = i)
  | _ => false

/-- A step of the coroutine `i`, or one that leaves it and its row alone. -/
def aside (host : Host) (i : ℕ) (taskId : String) (q : Process) (a : Action) : Prop :=
  ofCoroutine i a = true ∨ ∀ q', q.act host a = some q' →
    q'.row taskId = q.row taskId ∧ q'.mgr.handles[i]? = q.mgr.handles[i]?

theorem unsent_of_done {phase : Phase} (h : phase.done = true) : phase.unsent = false := by
  revert h
  cases phase <;> simp [Phase.done, Phase.unsent]

theorem not_awaiting {k : Handle} (hat : p.mgr.handles[i]? = some k) (hph : k.phase ≠ .calling) :
    p.awaiting i = none := by
  cases ha : p.awaiting i with
  | none => rfl
  | some k' =>
    obtain ⟨hat', -, hcall⟩ := awaiting_eq_some ha
    rw [hat] at hat'
    cases hat'
    exact absurd hcall hph

theorem not_resumed {k : Handle} (hat : p.mgr.handles[i]? = some k) (hph : k.phase.unsent = false)
    (attemptId now : String) : p.resume host i attemptId now = none := by
  unfold Process.resume
  cases hr : p.runnable i with
  | none => rfl
  | some k' =>
    obtain ⟨hat', -⟩ := runnable_eq_some hr
    rw [hat] at hat'
    cases hat'
    revert hph
    cases hk : k.phase <;> simp [Phase.unsent, hk]

/-- The coroutine `i` goes on from `d`, and not into the recovery delay. -/
def Departs (host : Host) (i : ℕ) (d d' : Process) : Prop :=
  (∃ attemptId now, d.act host (.resume i attemptId now) = some d') ∧
    ∀ k, d'.mgr.handles[i]? = some k → k.phase.unsent = false

theorem Underway.unsent {settles : Prop} (h : Underway i taskId settles p) :
    ∀ k, p.mgr.handles[i]? = some k → k.phase.unsent = false := by
  intro k hk
  cases h with
  | calling hat _ hph =>
    rw [hat] at hk
    cases hk
    rw [hph]
    rfl
  | ended hat hph =>
    rw [hat] at hk
    cases hk
    exact unsent_of_done hph

theorem Waits.act {a : Action} (h : Waits i task p) (hs : task.state ∈ queuedStates)
    (ha : aside host i task.taskId p a) (hstep : p.act host a = some q) :
    Waits i task q ∨ (p.Departs host i q ∧ Underway i task.taskId (Settles host p.mgr task) q) := by
  obtain ⟨⟨k, hat, hid, hph⟩, hrow⟩ := h
  have hcall : k.phase ≠ .calling := by
    rcases hph with hph | hph <;> rw [hph] <;> nofun
  rcases ha with hown | hother
  · cases a with
    | resume j attemptId now =>
      obtain rfl : j = i := of_decide_eq_true hown
      refine (Waits.resume ⟨⟨k, hat, hid, hph⟩, hrow⟩ hs hstep).imp_right fun hsent => ?_
      exact ⟨⟨⟨attemptId, now, hstep⟩, hsent.unsent⟩, hsent⟩
    | workerReturned j result now =>
      obtain rfl : j = i := of_decide_eq_true hown
      simp [Process.act, workerReturned, not_awaiting hat hcall] at hstep
    | workerRaised j exc now =>
      obtain rfl : j = i := of_decide_eq_true hown
      simp [Process.act, workerRaised, not_awaiting hat hcall] at hstep
    | doneCallback j =>
      obtain rfl : j = i := of_decide_eq_true hown
      rcases hph with hph | hph <;> simp [Process.act, doneCallback, hat, hph] at hstep
    | _ => cases hown
  · obtain ⟨hrow', hat'⟩ := hother q hstep
    exact Or.inl ⟨⟨k, hat' ▸ hat, hid, hph⟩, hrow' ▸ hrow⟩

theorem Underway.not_resumed {settles : Prop} (h : Underway i taskId settles p)
    (attemptId now : String) : p.resume host i attemptId now = none := by
  cases h with
  | calling hat _ hph => exact Process.not_resumed hat (by rw [hph]; rfl) attemptId now
  | ended hat hph => exact Process.not_resumed hat (unsent_of_done hph) attemptId now

theorem complete_underway {settles : Prop} {k : Handle} {r : TaskRecord} (result : Json)
    (now : String) (hat : p.mgr.handles[i]? = some k) (hrow : p.row taskId = some r)
    (hs : r.state = running) (h : settles) :
    Underway i taskId settles ((p.complete taskId result now).setPhase i .finished) := by
  obtain ⟨store, hstore, hc⟩ := complete_running result now hrow hs
  rw [hc]
  refine .ended (setPhase_self hat) rfl ⟨fun _ => h, fun _ => ?_⟩
  exact ⟨_, (rowSet hstore hrow rfl rfl).self, show completed ∈ terminalStates by decide⟩

theorem handleException_underway {settles : Prop} {k : Handle} {r : TaskRecord} (exc : PyExc)
    (now : String) (hat : p.mgr.handles[i]? = some k) (hrow : p.row taskId = some r)
    (hs : r.state = running) (h : settles) :
    Underway i taskId settles ((p.handleException taskId exc now).setPhase i .finished) := by
  obtain ⟨target, ht, error, store, -, hstore, hc⟩ := handleException_running exc now hrow hs
  have hmem : ∀ s ∈ [failed, timedOut], s ∈ terminalStates := by decide
  rw [hc]
  refine .ended (setPhase_self hat) rfl ⟨fun _ => h, fun _ => ?_⟩
  exact ⟨_, (rowSet hstore hrow rfl rfl).self, hmem target ht⟩

theorem Underway.awaited {settles : Prop} {k : Handle} (h : Underway i taskId settles p)
    (ha : p.awaiting i = some k) :
    p.mgr.handles[i]? = some k ∧ k.taskId = taskId ∧
      (∃ r, p.row taskId = some r ∧ r.state = running) ∧ settles := by
  obtain ⟨hat', -, hcall⟩ := awaiting_eq_some ha
  cases h with
  | calling hat hid _ hrow hs h =>
    rw [hat] at hat'
    cases hat'
    exact ⟨hat, hid, ⟨_, hrow, hs⟩, h⟩
  | ended hat hph _ =>
    rw [hat] at hat'
    cases hat'
    rw [hcall] at hph
    cases hph

theorem Underway.own {a : Action} {settles : Prop} (h : Underway i taskId settles p)
    (hown : ofCoroutine i a = true) (hstep : p.act host a = some q) :
    Underway i taskId settles q := by
  cases a with
  | resume j attemptId now =>
    obtain rfl : j = i := of_decide_eq_true hown
    simp [Process.act, h.not_resumed] at hstep
  | workerReturned j result now =>
    obtain rfl : j = i := of_decide_eq_true hown
    obtain ⟨k, ha, rfl⟩ := Option.map_eq_some_iff.mp hstep
    obtain ⟨hat, rfl, ⟨r, hrow, hs⟩, hsettles⟩ := h.awaited ha
    exact complete_underway result now hat hrow hs hsettles
  | workerRaised j exc now =>
    obtain rfl : j = i := of_decide_eq_true hown
    obtain ⟨k, ha, rfl⟩ := Option.map_eq_some_iff.mp hstep
    obtain ⟨hat, rfl, ⟨r, hrow, hs⟩, hsettles⟩ := h.awaited ha
    exact handleException_underway exc now hat hrow hs hsettles
  | doneCallback j =>
    obtain rfl : j = i := of_decide_eq_true hown
    cases h with
    | calling hat _ hph => simp [Process.act, doneCallback, hat, hph] at hstep
    | @ended k hat hph h =>
      simp only [Process.act, doneCallback, hat, Option.bind_some] at hstep
      split at hstep
      · cases hstep
        have hat' : (p.setPhase j .reaped).mgr.handles[j]? = some { k with phase := .reaped } :=
          setPhase_self hat
        exact .ended hat' rfl h
      · cases hstep
  | _ => cases hown

theorem Underway.act {a : Action} {settles : Prop} (h : Underway i taskId settles p)
    (ha : aside host i taskId p a) (hstep : p.act host a = some q) :
    Underway i taskId settles q := by
  rcases ha with hown | hother
  · exact h.own hown hstep
  · obtain ⟨hrow', hat'⟩ := hother q hstep
    cases h with
    | calling hat hid hph hrow hs h => exact .calling (hat' ▸ hat) hid hph (hrow' ▸ hrow) hs h
    | ended hat hph h =>
      refine .ended (hat' ▸ hat) hph ?_
      unfold Ended
      rw [hrow']
      exact h

theorem waits_or_departed {d : Process} (hw : Waits i task p) (hs : task.state ∈ queuedStates)
    (hd : (p.lifetime host).Leads (aside host i task.taskId) p d) :
    Waits i task d ∨ ∃ e e' : Process, (p.lifetime host).Leads (aside host i task.taskId) p e ∧
      e.Departs host i e' ∧ (p.lifetime host).Leads (aside host i task.taskId) e' d ∧
      Underway i task.taskId (Settles host e.mgr task) d := by
  -- On the run: the step that ends the waiting is the departure, and no step after it is.
  induction hd with
  | refl => exact Or.inl hw
  | @tail q q' hlead hnext ih =>
    obtain ⟨a, hok, hstep⟩ := hnext
    rcases ih with hq | ⟨e, e', he, hdep, hlast, hq⟩
    · refine (hq.act hs hok hstep).imp_right fun ⟨hdep, hsent⟩ => ?_
      exact ⟨q, q', hlead, hdep, Relation.ReflTransGen.refl, hsent⟩
    · exact Or.inr ⟨e, e', he, hdep, hlast.tail ⟨a, hok, hstep⟩, hq.act hok hstep⟩

end Process

theorem started_waits {w : World} {settings : Settings} {now : String} {p : Process} {i : ℕ}
    {h : Handle} {r : TaskRecord} (hp : Bridge.started w settings now = some p)
    (hat : p.mgr.handles[i]? = some h) (hrow : p.row h.taskId = some r) :
    h.taskId = r.taskId ∧ r.state ∈ queuedStates ∧ Process.Waits i r p := by
  obtain ⟨w', ready, -, hb⟩ := started_booted hp
  obtain ⟨task, ht, rfl⟩ := hb.at_iff.mp hat
  obtain ⟨hget, hstart⟩ := (hb.mem task).mp (List.mem_of_getElem? ht)
  have hrow' : p.row task.taskId = some task := by rw [hb.row, hget]
  obtain rfl : task = r := by
    rw [hrow'] at hrow
    exact Option.some.inj hrow
  refine ⟨rfl, ?_, ⟨⟨_, hat, rfl, Or.inl rfl⟩, hrow'⟩⟩
  unfold Process.startSchedules at hstart
  rw [Bool.and_eq_true, decide_eq_true_iff] at hstart
  exact (hb.quiet _ _ hget).resolve_left hstart.1

/-- The coroutine of a row that `start` scheduled departs before it is over, and its row ends
with it if and only if the row can be given a directory then, or is recovering and can store
what that raises as its failure. -/
theorem row_ends_iff_settles {host : Host} {w : World} {settings : Settings} {now : String}
    {p : Process} {i : ℕ} {h : Handle} {r : TaskRecord}
    (hp : Bridge.started w settings now = some p) (hat : p.mgr.handles[i]? = some h)
    (hrow : p.row h.taskId = some r) :
    (∀ q, (p.lifetime host).Leads (Process.aside host i h.taskId) p q → q.mgr.done i = true →
      ∃ d d' : Process, (p.lifetime host).Leads (Process.aside host i h.taskId) p d ∧
        d.Departs host i d' ∧ (p.lifetime host).Leads (Process.aside host i h.taskId) d' q) ∧
    ∀ d d' q : Process, (p.lifetime host).Leads (Process.aside host i h.taskId) p d →
      d.Departs host i d' → (p.lifetime host).Leads (Process.aside host i h.taskId) d' q →
      q.mgr.done i = true → (q.Ended h.taskId ↔ Settles host d.mgr r) := by
  obtain ⟨hid, hqueued, hw⟩ := started_waits hp hat hrow
  rw [hid]
  constructor
  · intro q hq hdone
    rcases Process.waits_or_departed hw hqueued hq with ⟨⟨k, hk, -, hph⟩, -⟩ | ⟨d, d', h⟩
    · simp only [Manager.done, hk] at hdone
      rcases hph with hph | hph <;> rw [hph] at hdone <;> cases hdone
    · exact ⟨d, d', h.1, h.2.1, h.2.2.1⟩
  · intro d d' q hd hdep hq hdone
    obtain ⟨⟨attemptId, now', hstep⟩, hunsent⟩ := hdep
    have hsent : Process.Underway i r.taskId (Settles host d.mgr r) d' := by
      rcases Process.waits_or_departed hw hqueued hd with hwait | ⟨_, _, _, _, _, hs⟩
      · rcases hwait.resume hqueued hstep with ⟨⟨k, hk, -, hph⟩, -⟩ | hs
        · -- It is in the delay now, and has not departed.
          have hgone := hunsent k hk
          rcases hph with hph | hph <;> rw [hph] at hgone <;> cases hgone
        · exact hs
      · rw [show d.act host (.resume i attemptId now') = none from hs.not_resumed attemptId now']
          at hstep
        cases hstep
    have hend := Runs.Machine.Leads.invariant
      (I := Process.Underway i r.taskId (Settles host d.mgr r)) hq hsent
      fun s a s' hok hs hstep => hs.act hok hstep
    cases hend with
    | calling hk _ hph =>
      simp only [Manager.done, hk, hph] at hdone
      cases hdone
    | ended _ _ h => exact h

namespace Sample

def oldRow (state : TaskState) : TaskRecord :=
  { TaskRecord.new "a" "w" "build".toList none none 300 "t0" with state := state }

/-- A database with one row, which has no directory and no frontmatter to take one from. -/
def oldWorld (state : TaskState) : World :=
  { World.empty with
    store := ⟨[oldRow state], List.pairwise_singleton _ _, List.pairwise_singleton _ _⟩ }

def oldRun (state : TaskState) : Option (Process × Process) :=
  (Bridge.started (oldWorld state) (settings .always 0) "t1").bind fun p =>
    (p.act host (.resume 0 "r" "t2")).map fun q => (p, q)

def oldOutcome (run : Process × Process) : Option (String × Bool × Bool × TaskState) :=
  run.1.mgr.handles[0]?.bind fun h =>
    run.2.mgr.handles[0]?.bind fun k =>
      (run.2.row "a").map fun r => (h.taskId, k.phase.done, k.phase.unsent, r.state)

end Sample

/-- A row that was running when the bridge crashed fails. -/
theorem row_ends_iff_settles_recovering : ∃ (p q : Process) (r : TaskRecord),
    p.row "a" = some r ∧ r.workingDirectory = none ∧ q.Ended "a" ∧ Settles Sample.host p.mgr r := by
  have hrun : ((Sample.oldRun running).bind fun run =>
      (run.1.row "a").map fun r => (Sample.oldOutcome run, r.workingDirectory)) =
        some (some ("a", true, false, failed), none) := by decide
  obtain ⟨⟨p, q⟩, hpq, hseen⟩ := Option.bind_eq_some_iff.mp hrun
  obtain ⟨p', hp, hstep⟩ := Option.bind_eq_some_iff.mp hpq
  obtain ⟨q', hact, he⟩ := Option.map_eq_some_iff.mp hstep
  cases he
  obtain ⟨r, hrow, hout⟩ := Option.map_eq_some_iff.mp hseen
  obtain ⟨hout, hnone⟩ := Prod.mk.inj hout
  obtain ⟨h, hat, hout⟩ := Option.bind_eq_some_iff.mp hout
  obtain ⟨k, hat', hout⟩ := Option.bind_eq_some_iff.mp hout
  obtain ⟨r', hrow', hout⟩ := Option.map_eq_some_iff.mp hout
  simp only [Prod.mk.injEq] at hout
  obtain ⟨hid, hdone, hunsent, hfailed⟩ := hout
  have hended : q.Ended "a" := ⟨r', hrow', by rw [hfailed]; decide⟩
  have hdep : p.Departs Sample.host 0 q := by
    refine ⟨⟨"r", "t2", hact⟩, fun l hl => ?_⟩
    rw [hat'] at hl
    cases hl
    exact hunsent
  refine ⟨p, q, r, hrow, hnone, hended, ?_⟩
  refine ((row_ends_iff_settles (h := h) hp hat (hid ▸ hrow)).2 p q q Relation.ReflTransGen.refl
    hdep Relation.ReflTransGen.refl ?_).mp (hid ▸ hended)
  simp only [Manager.done, hat', hdone]

/-- A row that was pending then keeps its state, and its coroutine is over. -/
theorem old_row_left_pending : ¬ ∀ (host : Host) (w : World) (settings : Settings) (now : String)
    (p q : Process) (i : ℕ) (h : Handle), Bridge.started w settings now = some p →
    p.mgr.handles[i]? = some h → (p.lifetime host).Leads (Process.aside host i h.taskId) p q →
    q.mgr.done i = true → q.Ended h.taskId := by
  intro hall
  have hrun : (Sample.oldRun pending).map Sample.oldOutcome =
      some (some ("a", true, false, pending)) := by decide
  obtain ⟨⟨p, q⟩, hpq, hout⟩ := Option.map_eq_some_iff.mp hrun
  obtain ⟨p', hp, hstep⟩ := Option.bind_eq_some_iff.mp hpq
  obtain ⟨q', hact, he⟩ := Option.map_eq_some_iff.mp hstep
  cases he
  obtain ⟨h, hat, hout⟩ := Option.bind_eq_some_iff.mp hout
  obtain ⟨k, hat', hout⟩ := Option.bind_eq_some_iff.mp hout
  obtain ⟨r, hrow, hout⟩ := Option.map_eq_some_iff.mp hout
  simp only [Prod.mk.injEq] at hout
  obtain ⟨hid, hdone, -, hpending⟩ := hout
  have hlead : (p.lifetime Sample.host).Leads (Process.aside Sample.host 0 h.taskId) p q :=
    Relation.ReflTransGen.single ⟨.resume 0 "r" "t2", Or.inl rfl, hact⟩
  obtain ⟨r', hrow', hterm⟩ := hall Sample.host (Sample.oldWorld pending)
    (Sample.settings .always 0) "t1" p q 0 h hp hat hlead (by simp only [Manager.done, hat', hdone])
  rw [hid, hrow] at hrow'
  cases hrow'
  rw [hpending] at hterm
  exact absurd hterm (by decide)

end WorkerBridge
