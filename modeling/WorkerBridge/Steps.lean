import WorkerBridge.Coherence

namespace WorkerBridge

open TaskState

namespace Process

variable {p p' : Process} {task : TaskRecord} {taskId : String} {i : ℕ}

theorem taskId_of_row (h : p.row taskId = some task) : task.taskId = taskId :=
  Store.taskId_of_get h

theorem row_self (h : p.row taskId = some task) : p.row task.taskId = some task := by
  rw [taskId_of_row h]
  exact h

theorem settle_ok {target : TaskState} (now : String) (error : Option Text) (result : Option Json)
    (hrow : p.row taskId = some task) (ht : target ∈ allowedTransitions task.state) :
    ∃ store, p.store.upsert (task.moveTo target now error result) = .ok store ∧
      p.settle task target now error result =
        .ok ⟨p.world.write store,
          { p.mgr with metrics := p.mgr.metrics.incTaskCompleted task.workerId target }⟩ := by
  have hrow' : p.store.get (task.moveTo target now error result).taskId = some task :=
    row_self hrow
  obtain ⟨store, hs⟩ := Store.upsert_isOk hrow' rfl
  refine ⟨store, hs, ?_⟩
  have hw : p.upsert (task.moveTo target now error result) =
      .ok { p with world := p.world.write store } := by
    unfold upsert World.upsert
    rw [show p.world.store.upsert _ = .ok store from hs]
    rfl
  unfold settle
  rw [TaskRecord.transition_of_mem ht]
  simp only [bind, Except.bind, hw, TaskRecord.moveTo_workerId, TaskRecord.moveTo_state]

theorem failTerminal_terminal (state : TaskState) (error : Text) (now : String)
    (hrow : p.row taskId = some task) (ht : task.state ∈ terminalStates) :
    p.failTerminal taskId state error now = p := by
  unfold failTerminal
  rw [hrow]
  exact if_pos ht

theorem failTerminal_running {state : TaskState} (error : Text) (now : String)
    (hrow : p.row taskId = some task) (hs : task.state = running)
    (ht : state ∈ allowedTransitions running) :
    ∃ store, p.store.upsert (task.moveTo state now (some error) none) = .ok store ∧
      p.failTerminal taskId state error now = ⟨p.world.write store,
        { p.mgr with metrics := p.mgr.metrics.incTaskCompleted task.workerId state }⟩ := by
  obtain ⟨store, hstore, hset⟩ := settle_ok now (some error) none hrow (hs ▸ ht)
  refine ⟨store, hstore, ?_⟩
  unfold failTerminal
  simp only [hrow, hset]
  rw [if_neg (by rw [hs]; decide)]

theorem handleException_terminal (exc : PyExc) (now : String) (hrow : p.row taskId = some task)
    (ht : task.state ∈ terminalStates) : p.handleException taskId exc now = p := by
  unfold handleException
  split
  · exact failTerminal_terminal _ _ _ hrow ht
  · simp only [hrow, if_pos ht]

theorem handleException_running (exc : PyExc) (now : String) (hrow : p.row taskId = some task)
    (hs : task.state = running) :
    ∃ target ∈ [failed, timedOut], ∃ error store, (exc.className ≠ [] → error ≠ []) ∧
      p.store.upsert (task.moveTo target now (some error) none) = .ok store ∧
      p.handleException taskId exc now = ⟨p.world.write store,
        { p.mgr with metrics := p.mgr.metrics.incTaskCompleted task.workerId target }⟩ := by
  have hnot : task.state ∉ terminalStates := by rw [hs]; decide
  by_cases hexc : exc.isTimeoutError = true
  · obtain ⟨store, hstore, hfail⟩ := failTerminal_running
      (exc.str.orElse "worker timed out".toList) now hrow hs (by decide : timedOut ∈ _)
    refine ⟨timedOut, by decide, _, store, fun _ => Text.orElse_ne_nil (by decide), hstore, ?_⟩
    unfold handleException
    rw [if_pos hexc, hfail]
  · have htarget : ∀ b : Bool, (if b then timedOut else failed) ∈ allowedTransitions running := by
      decide
    obtain ⟨store, hstore, hfail⟩ := failTerminal_running
      (exc.str.orElse exc.className) now hrow hs
      (htarget ((exc.str.orElse exc.className).lower.has "timeout".toList))
    refine ⟨_, ?_, _, store, fun hn => Text.orElse_ne_nil hn, hstore, ?_⟩
    · split <;> decide
    · unfold handleException
      rw [if_neg hexc]
      simp only [hrow, if_neg hnot]
      exact hfail

theorem handleCancelled_terminal (now : String) (hrow : p.row taskId = some task)
    (ht : task.state ∈ terminalStates) : p.handleCancelled taskId now = p := by
  unfold handleCancelled
  simp only [hrow, if_pos ht]

theorem handleCancelled_live (now : String) (hrow : p.row taskId = some task)
    (ht : task.state ∉ terminalStates) :
    ∃ store, p.store.upsert
        (task.moveTo cancelled now (some "background task cancelled".toList) none) = .ok store ∧
      p.handleCancelled taskId now = ⟨p.world.write store,
        { p.mgr with metrics := p.mgr.metrics.incTaskCompleted task.workerId cancelled }⟩ := by
  obtain ⟨store, hstore, hset⟩ := settle_ok now (some "background task cancelled".toList) none
    hrow (cancelled_mem_of_not_terminal ht)
  refine ⟨store, hstore, ?_⟩
  unfold handleCancelled
  simp only [hrow, if_neg ht, hset]

theorem complete_terminal (result : Json) (now : String) (hrow : p.row taskId = some task)
    (ht : task.state ∈ terminalStates) : p.complete taskId result now = p := by
  unfold complete
  simp only [hrow, if_pos ht]

theorem complete_running (result : Json) (now : String) (hrow : p.row taskId = some task)
    (hs : task.state = running) :
    ∃ store, p.store.upsert (task.moveTo completed now none (some result)) = .ok store ∧
      p.complete taskId result now = ⟨p.world.write store,
        { p.mgr with metrics := p.mgr.metrics.incTaskCompleted task.workerId completed }⟩ := by
  have hnot : task.state ∉ terminalStates := by rw [hs]; decide
  obtain ⟨store, hstore, hset⟩ := settle_ok now none (some result) hrow
    (by rw [hs]; decide : completed ∈ _)
  refine ⟨store, hstore, ?_⟩
  unfold complete
  simp only [hrow, if_neg hnot, hset]

theorem beginAttempt_ok (host : Host) (attemptId now : String) (hrow : p.row taskId = some task)
    (hs : task.state ∈ queuedStates) (hd : task.workingDirectory ≠ none) :
    ∃ store, p.store.upsert (task.begun attemptId now) = .ok store ∧
      p.beginAttempt host task attemptId now =
        .ok (⟨p.world.write store, p.mgr⟩, task.begun attemptId now) := by
  have hrow' : p.store.get (task.begun attemptId now).taskId = some task := row_self hrow
  obtain ⟨store, hstore⟩ := Store.upsert_isOk hrow' rfl
  refine ⟨store, hstore, ?_⟩
  have hbind : p.bindDirectory host task = .ok (p, task) := by
    unfold bindDirectory
    split
    · rfl
    · next h => exact absurd h hd
  have hw : p.upsert (task.begun attemptId now) = .ok ⟨p.world.write store, p.mgr⟩ := by
    unfold upsert World.upsert
    rw [show p.world.store.upsert _ = .ok store from hstore]
    rfl
  unfold beginAttempt
  rw [hbind]
  simp only [bind, Except.bind]
  simp only [queuedStates, List.mem_cons, List.not_mem_nil, or_false] at hs
  cases hs with
  | inl hpending =>
    have hstep : (task.nextAttempt attemptId now).transition running now none none =
        .ok (task.begun attemptId now) :=
      TaskRecord.transition_of_mem (by rw [TaskRecord.nextAttempt_state, hpending]; decide)
    rw [if_neg (by rw [hpending]; decide)]
    simp only [if_pos hpending, hstep, hw]
  | inr hrecovering =>
    -- The step through `Pending` is in memory only and leaves no trace in the row.
    have hback : task.transition pending now none none =
        .ok (task.moveTo pending now none none) :=
      TaskRecord.transition_of_mem (by rw [hrecovering]; decide)
    have hstep : ((task.moveTo pending now none none).nextAttempt attemptId now).transition
        running now none none = .ok (task.begun attemptId now) := by
      rw [TaskRecord.transition_of_mem (show running ∈ allowedTransitions pending by decide)]
      simp [TaskRecord.begun, TaskRecord.moveTo, TaskRecord.nextAttempt, terminalStates]
    rw [if_pos hrecovering, hback]
    simp only [TaskRecord.moveTo_state, if_true, hstep, hw]

theorem dispatch_ok (host : Host) (i : ℕ) (attemptId now : String)
    (hrow : p.row taskId = some task) (hs : task.state ∈ queuedStates)
    (hd : task.workingDirectory ≠ none) :
    ∃ store, p.store.upsert (task.begun attemptId now) = .ok store ∧
      p.dispatch host i task attemptId now =
        ⟨{ p.world.write store with
            calls := sentCall p.world.lifetimes (task.begun attemptId now)
              (decide (task.state = recovering)) :: p.world.calls },
          p.mgr.setPhase i .calling⟩ := by
  obtain ⟨store, hstore, hbegin⟩ := beginAttempt_ok host attemptId now hrow hs hd
  refine ⟨store, hstore, ?_⟩
  unfold dispatch
  rw [hbegin]
  rfl

theorem backgroundGet_eq_none (hc : Coherent p.row p.mgr) (hfresh : p.row taskId = none) :
    p.mgr.backgroundGet taskId = none := by
  unfold Manager.backgroundGet
  rw [Option.map_eq_none_iff, Table.find_eq_none]
  intro e he hid
  obtain ⟨h, hat, hh⟩ := hc.entry e he
  obtain ⟨r, hr, -⟩ := hc.agrees _ _ hat
  rw [hh, hid, hfresh] at hr
  cases hr

theorem schedule_of_get_none {m : Manager} (h : m.backgroundGet task.taskId = none) :
    m.schedule task = m.track task.taskId := by
  unfold Manager.schedule
  rw [h]

/-- What a submission with a fresh id comes to: it is refused, it inserts a row and schedules it,
or it finds the row of its key. -/
inductive Submits (p : Process) (host : Host) (request : CallRequest) (taskId now : String) :
    Process × Response → Prop
  | refused (message : Text) : Submits p host request taskId now (p, .refused message none)
  | created (worker : WorkerConfig) (directory : Text) (task : TaskRecord) (store : Store)
      (hworker : p.mgr.worker request.workerId = .ok worker)
      (hdirectory : resolveWorkingDirectory host worker request.prompt = .ok directory)
      (hlimits : p.mgr.enforceAsyncLimits p.store request.workerId = .ok ())
      (htask : task = TaskRecord.new taskId request.workerId request.prompt (some directory)
        request.idempotencyKey worker.timeoutLimits.asyncSeconds now)
      (hinsert : p.store.insert task = .ok store) :
      Submits p host request taskId now
        (⟨{ p.world.write store with
            answers := ⟨request.idempotencyKey, task.taskId⟩ :: p.world.answers },
          ({ p.mgr with
            metrics := p.mgr.metrics.incTaskCreated request.workerId .async } : Manager).schedule task⟩,
          .task (taskResponse task))
  | known (key : String) (r : TaskRecord) (hne : key ≠ "")
      (hkey : request.idempotencyKey = some key) (hr : r ∈ p.store.rows)
      (hrk : r.idempotencyKey = some key) :
      Submits p host request taskId now
        (⟨{ p.world with answers := ⟨request.idempotencyKey, r.taskId⟩ :: p.world.answers }, p.mgr⟩,
          .task (taskResponse r))

theorem call_submits {host : Host} {request : CallRequest} {now : String}
    {out : Process × Response} (hfresh : p.row taskId = none)
    (h : p.call host request taskId now = .ok out) : Submits p host request taskId now out := by
  unfold call at h
  cases hworker : p.mgr.worker request.workerId with
  | error e => simp [hworker, bind, Except.bind] at h
  | ok worker =>
    cases hdirectory : resolveWorkingDirectory host worker request.prompt with
    | error e => simp [hworker, hdirectory, bind, Except.bind] at h
    | ok directory =>
      simp only [hworker, hdirectory, bind, Except.bind] at h
      split at h
      · cases h
        exact .refused _
      · cases hlimits : p.mgr.enforceAsyncLimits p.store request.workerId with
        | error e => simp [hlimits] at h
        | ok u =>
          simp only [hlimits] at h
          generalize htask : TaskRecord.new taskId request.workerId request.prompt (some directory)
            request.idempotencyKey worker.timeoutLimits.asyncSeconds now = task at h
          have hid : task.taskId = taskId := by rw [← htask]; rfl
          have hkey : task.idempotencyKey = request.idempotencyKey := by rw [← htask]; rfl
          cases hcreate : p.store.createOrGet task with
          | error e => simp [hcreate] at h
          | ok stored =>
            obtain ⟨store, r, created⟩ := stored
            simp only [hcreate] at h
            rcases Store.createOrGet_ok (hid ▸ hfresh) hcreate with
              ⟨rfl, rfl, hinsert⟩ | ⟨rfl, rfl, key, hne, hk, hget⟩
            · cases h
              exact .created _ _ _ _ hworker hdirectory hlimits htask.symm hinsert
            · obtain ⟨hr, hrk⟩ := Store.mem_of_getByIdempotencyKey hget
              cases h
              exact .known _ _ hne (hkey ▸ hk) hr hrk

theorem call_moves {host : Host} {request : CallRequest} {now : String} {response : Response}
    (hc : Coherent p.row p.mgr) (hfresh : p.row taskId = none)
    (h : p.call host request taskId now = .ok (p', response)) :
    p.Moves (.call request taskId now) p' := by
  cases call_submits hfresh h with
  | refused => exact .idle
  | created worker directory task store _ _ hlimits htask hinsert =>
    -- A fresh id has no coroutine yet, so that the task gets one.
    have hid : task.taskId = taskId := by rw [htask]; rfl
    have hget : p.mgr.backgroundGet task.taskId = none := backgroundGet_eq_none hc (hid ▸ hfresh)
    have hschedule : ({ p.mgr with
        metrics := p.mgr.metrics.incTaskCreated request.workerId .async } : Manager).schedule task =
        { p.mgr.track task.taskId with
          metrics := p.mgr.metrics.incTaskCreated request.workerId .async } :=
      schedule_of_get_none hget
    rw [hschedule, hid]
    exact .accept hfresh htask hlimits hinsert
  | known key r hne hkey hr hrk => exact .replay hne hkey (Store.get_of_mem hr) hrk

theorem runnable_eq_some {h : Handle} (hr : p.runnable i = some h) :
    p.mgr.handles[i]? = some h ∧ h.cancelRequested = false := by
  unfold runnable at hr
  obtain ⟨hat, hc⟩ := Option.filter_eq_some_iff.mp hr
  exact ⟨hat, by simpa using hc⟩

theorem awaiting_eq_some {h : Handle} (ha : p.awaiting i = some h) :
    p.mgr.handles[i]? = some h ∧ h.cancelRequested = false ∧ h.phase = .calling := by
  unfold awaiting at ha
  obtain ⟨hr, hph⟩ := Option.filter_eq_some_iff.mp ha
  obtain ⟨hat, hc⟩ := runnable_eq_some hr
  refine ⟨hat, hc, ?_⟩
  split at hph
  · assumption
  · cases hph

theorem queued_of_not_terminal (hsound : Sound p.row) (hrow : p.row taskId = some task)
    (hlive : task.state ∉ terminalStates) (hs : task.state ≠ running) :
    task.state ∈ queuedStates := by
  have hr := hsound.notRetrying _ _ hrow
  revert hlive hs hr
  cases task.state <;> decide

theorem resume_cases {host : Host} {attemptId now : String} (hi : p.Inv)
    (h : p.resume host i attemptId now = some p') :
    ∃ k r, p.mgr.handles[i]? = some k ∧ (k.phase = .created ∨ k.phase = .sleeping r) ∧
      k.cancelRequested = false ∧ p.row k.taskId = some r ∧
      ((r.state ∈ terminalStates ∧ p' = p.setPhase i .finished) ∨
        (k.phase = .created ∧ r.state = recovering ∧ p' = p.setPhase i (.sleeping r)) ∨
        (r.state ∈ queuedStates ∧ ∃ store, p.store.upsert (r.begun attemptId now) = .ok store ∧
          p' = ⟨{ p.world.write store with
              calls := sentCall p.world.lifetimes (r.begun attemptId now)
                (decide (r.state = recovering)) :: p.world.calls },
            p.mgr.setPhase i .calling⟩)) := by
  unfold resume at h
  obtain ⟨k, hrun, hstep⟩ := Option.bind_eq_some_iff.mp h
  obtain ⟨hat, hreq⟩ := runnable_eq_some hrun
  obtain ⟨r, hrow, hagree⟩ := hi.coherent.agrees i k hat
  have hbound := hi.sound.bound _ _ hrow
  unfold Handle.Agrees at hagree
  split at hstep
  · next hph =>
    simp only [hph] at hagree
    cases hstep
    refine ⟨k, r, hat, Or.inl hph, hreq, hrow, ?_⟩
    unfold runTask
    simp only [hrow]
    by_cases hterm : r.state ∈ terminalStates
    · rw [if_pos hterm]
      exact Or.inl ⟨hterm, rfl⟩
    · rw [if_neg hterm]
      split
      · next hdelay => exact Or.inr (Or.inl ⟨hph, hdelay.2, rfl⟩)
      · have hq := queued_of_not_terminal hi.sound hrow hterm hagree
        exact Or.inr (Or.inr ⟨hq, dispatch_ok host i attemptId now hrow hq hbound⟩)
  · next task hph =>
    -- After the delay the copy is still the row, as nobody has cancelled.
    simp only [hph, hreq, Bool.false_eq_true, and_false, or_false] at hagree
    obtain ⟨rfl, hs⟩ := hagree
    cases hstep
    have hq : r.state ∈ queuedStates := by rw [hs]; decide
    exact ⟨k, r, hat, Or.inr hph, hreq, hrow,
      Or.inr (Or.inr ⟨hq, dispatch_ok host i attemptId now hrow hq hbound⟩)⟩
  · cases hstep
  · cases hstep
  · cases hstep

theorem resume_moves {host : Host} {attemptId now : String} (hi : p.Inv)
    (h : p.resume host i attemptId now = some p') : p.Moves (.resume i attemptId now) p' := by
  obtain ⟨k, r, hat, hph, hreq, hrow, hcase⟩ := resume_cases hi h
  rcases hcase with ⟨hterm, rfl⟩ | ⟨hcreated, hs, rfl⟩ | ⟨hq, store, hstore, rfl⟩
  · exact .quit hat (by rcases hph with hph | hph <;> rw [hph] <;> rfl) hrow (Or.inl hterm)
  · exact .sleep hat hcreated hreq hrow hs
  · exact .attempt hat hph hreq hrow hq hstore

theorem calling_row {h : Handle} (hi : p.Inv) (hat : p.mgr.handles[i]? = some h)
    (hph : h.phase = .calling) :
    ∃ r, p.row h.taskId = some r ∧ (r.state = running ∨ r.state ∈ terminalStates) := by
  obtain ⟨r, hrow, hagree⟩ := hi.coherent.agrees i h hat
  refine ⟨r, hrow, ?_⟩
  unfold Handle.Agrees at hagree
  simpa only [hph] using hagree

theorem workerReturned_moves {result : Json} {now : String} (hi : p.Inv)
    (h : p.workerReturned i result now = some p') :
    p.Moves (.workerReturned i result now) p' := by
  unfold workerReturned at h
  obtain ⟨hd, ha, rfl⟩ := Option.map_eq_some_iff.mp h
  obtain ⟨hat, -, hph⟩ := awaiting_eq_some ha
  obtain ⟨r, hrow, hs | hs⟩ := calling_row hi hat hph
  · obtain ⟨store, hstore, hcomplete⟩ := complete_running result now hrow hs
    rw [hcomplete]
    exact .settle hat hph hrow hs (by decide) hstore (.returned result)
  · rw [complete_terminal result now hrow hs]
    exact .quit hat (by rw [hph]; rfl) hrow (Or.inl hs)

theorem workerRaised_moves {exc : PyExc} {now : String} (hi : p.Inv)
    (h : p.workerRaised i exc now = some p') : p.Moves (.workerRaised i exc now) p' := by
  unfold workerRaised at h
  obtain ⟨hd, ha, rfl⟩ := Option.map_eq_some_iff.mp h
  obtain ⟨hat, -, hph⟩ := awaiting_eq_some ha
  obtain ⟨r, hrow, hs | hs⟩ := calling_row hi hat hph
  · have hmem : ∀ s ∈ [failed, timedOut], s ∈ [completed, failed, timedOut] := by decide
    obtain ⟨target, ht, error, store, hne, hstore, hexc⟩ := handleException_running exc now hrow hs
    rw [hexc]
    exact .settle hat hph hrow hs (hmem target ht) hstore (.raised ht hne)
  · rw [handleException_terminal exc now hrow hs]
    exact .quit hat (by rw [hph]; rfl) hrow (Or.inl hs)

theorem throwCancelled_cases {now : String} (hi : p.Inv)
    (h : p.throwCancelled i now = some p') :
    ∃ k r, p.mgr.handles[i]? = some k ∧ k.cancelRequested = true ∧ k.phase.done = false ∧
      p.row k.taskId = some r ∧
      ((p' = p.setPhase i .finished ∧ (r.state ∈ terminalStates ∨ k.phase = .created)) ∨
        ((k.phase = .calling ∨ k.phase = .sleeping r) ∧ r.state ∉ terminalStates ∧
          ∃ store, p.store.upsert (r.moveTo cancelled now
              (some "background task cancelled".toList) none) = .ok store ∧
            p' = p.settledAs i store (r.moveTo cancelled now
              (some "background task cancelled".toList) none))) := by
  unfold throwCancelled at h
  obtain ⟨k, hfilter, hstep⟩ := Option.bind_eq_some_iff.mp h
  obtain ⟨hat, hreq⟩ := Option.filter_eq_some_iff.mp hfilter
  obtain ⟨r, hrow, hagree⟩ := hi.coherent.agrees i k hat
  refine ⟨k, r, hat, hreq, ?_, hrow, ?_⟩
  · cases hph : k.phase <;> simp only [hph] at hstep <;> first | rfl | cases hstep
  · have hbegun : r.state ∈ terminalStates ∨ k.phase = .calling ∨ k.phase = .sleeping r →
        p' = (p.handleCancelled k.taskId now).setPhase i .finished →
        (p' = p.setPhase i .finished ∧ (r.state ∈ terminalStates ∨ k.phase = .created)) ∨
          ((k.phase = .calling ∨ k.phase = .sleeping r) ∧ r.state ∉ terminalStates ∧
            ∃ store, p.store.upsert (r.moveTo cancelled now
                (some "background task cancelled".toList) none) = .ok store ∧
              p' = p.settledAs i store (r.moveTo cancelled now
                (some "background task cancelled".toList) none)) := by
      intro hph hp'
      by_cases hterm : r.state ∈ terminalStates
      · rw [handleCancelled_terminal now hrow hterm] at hp'
        exact Or.inl ⟨hp', Or.inl hterm⟩
      · obtain ⟨store, hstore, hc⟩ := handleCancelled_live now hrow hterm
        rw [hc] at hp'
        exact Or.inr ⟨hph.resolve_left hterm, hterm, store, hstore, hp'⟩
    unfold Handle.Agrees at hagree
    split at hstep
    · next hph =>
      cases hstep
      exact Or.inl ⟨rfl, Or.inr hph⟩
    · next task hph =>
      simp only [hph] at hagree
      cases hstep
      refine hbegun ?_ rfl
      rcases hagree with ⟨rfl, -⟩ | ⟨hterm, -⟩
      · exact Or.inr (Or.inr hph)
      · exact Or.inl hterm
    · next hph =>
      cases hstep
      exact hbegun (Or.inr (Or.inl hph)) rfl
    · cases hstep
    · cases hstep

theorem throwCancelled_moves {now : String} (hi : p.Inv)
    (h : p.throwCancelled i now = some p') : p.Moves (.throwCancelled i now) p' := by
  obtain ⟨k, r, hat, hreq, hd, hrow, ⟨rfl, hend⟩ | ⟨hph, hlive, store, hstore, rfl⟩⟩ :=
    throwCancelled_cases hi h
  · exact .quit hat hd hrow (hend.imp_right fun hph => ⟨hph, hreq⟩)
  · exact .abandon hat hph hreq hrow hlive hstore

theorem cancel_missing (now : String) (hrow : p.row taskId = none) :
    p.cancel taskId now = (p, .refused "task not found".toList (some taskId)) := by
  unfold cancel
  simp only [hrow]

theorem cancel_terminal (now : String) (hrow : p.row taskId = some task)
    (ht : task.state ∈ terminalStates) :
    p.cancel taskId now = (p, .task (taskResponse task)) := by
  unfold cancel
  simp only [hrow, if_pos ht]

theorem cancel_live (now : String) (hrow : p.row taskId = some task)
    (ht : task.state ∉ terminalStates) :
    ∃ store, p.store.upsert
        (task.moveTo cancelled now (some "cancelled by caller".toList) none) = .ok store ∧
      p.cancel taskId now = (⟨p.world.write store,
          { p.mgr.cancelTracked taskId with
            metrics := p.mgr.metrics.incTaskCompleted task.workerId cancelled }⟩,
        .task (taskResponse
          (task.moveTo cancelled now (some "cancelled by caller".toList) none))) := by
  obtain ⟨store, hstore, hset⟩ := settle_ok (p := ⟨p.world, p.mgr.cancelTracked taskId⟩) now
    (some "cancelled by caller".toList) none hrow (cancelled_mem_of_not_terminal ht)
  refine ⟨store, hstore, ?_⟩
  unfold cancel
  simp only [hrow, if_neg ht, hset]
  rfl

theorem cancel_moves {now : String} : p.Moves (.cancel taskId now) (p.cancel taskId now).1 := by
  cases hrow : p.row taskId with
  | none =>
    rw [cancel_missing now hrow]
    exact .idle
  | some task =>
    by_cases ht : task.state ∈ terminalStates
    · rw [cancel_terminal now hrow ht]
      exact .idle
    · obtain ⟨store, hstore, hcancel⟩ := cancel_live now hrow ht
      rw [hcancel]
      exact .cancel hrow ht hstore

/-- Every step of a coherent process is one of `Moves`. -/
theorem act_moves {host : Host} {a : Action} (hi : p.Inv) (h : p.act host a = some p') :
    p.Moves a p' := by
  cases a with
  | call request taskId now =>
    simp only [act] at h
    split at h
    · next hfresh =>
      split at h
      · next hcall =>
        cases h
        exact call_moves hi.coherent hfresh hcall
      · cases h
        exact .idle
    · cases h
  | check taskId =>
    cases h
    exact .idle
  | cancel taskId now =>
    cases h
    exact cancel_moves
  | resume i attemptId now => exact resume_moves hi h
  | workerReturned i result now => exact workerReturned_moves hi h
  | workerRaised i exc now => exact workerRaised_moves hi h
  | throwCancelled i now => exact throwCancelled_moves hi h
  | doneCallback i =>
    simp only [act, doneCallback] at h
    obtain ⟨hd, hat, hstep⟩ := Option.bind_eq_some_iff.mp h
    split at hstep
    · next hph =>
      cases hstep
      exact .callback hat hph
    · cases hstep
  | stop =>
    simp only [act] at h
    split at h
    · next hg =>
      cases h
      exact .stop (by simpa using hg)
    · cases h
  | stopped =>
    simp only [act] at h
    split at h
    · next gathered hg =>
      split at h
      · next hall =>
        cases h
        exact .stopped hg (by simpa using hall)
      · cases h
    · cases h
  | reload workers recovery limits =>
    cases h
    exact .reload

end Process

end WorkerBridge
