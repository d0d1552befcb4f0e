import WorkerBridge.Scopes

namespace WorkerBridge

def startedWith (latest : Load) : List Load → Load
  | [] => latest
  | before :: rest => startedWith before rest

/-- What the current manager was built with.  It stays while the path of the database does. -/
def builtWith (latest : Load) : List Load → Load
  | [] => latest
  | before :: rest =>
    if latest.config.sqlitePath = before.config.sqlitePath then builtWith before rest else latest

/-- The log and the audit log of a load could be set up. -/
structure Load.Sound (load : Load) (audit : AuditLogger) : Prop where
  log : ∀ root, ∃ root', configureLogging load.files root load.config.logging = (root', .ok ())
  audit : AuditLogger.new load.files load.config.audit = .ok audit

/-- A call of the manager at the place `k` that has a slot. -/
def SyncCall.holdsSlot (k : ℕ) (call : SyncCall) : Bool :=
  decide (call.manager = k) && match call.phase with | .calling => true | _ => false

namespace App

variable {env : Environment} {app app' : App} {k j : ℕ} {m m' : TaskManager} {p : Process}

/-- The synchronous calls that the manager at the place `k` admits when none is under way. -/
def syncSlots (app : App) (k : ℕ) : ℕ :=
  (app.managers[k]?.elim 0 fun m => m.syncLimit.free) + app.syncCalls.countP (SyncCall.holdsSlot k)

theorem syncSlots_putManager (hm : app.managers[k]? = some m) :
    (app.putManager k m').syncSlots j + (if j = k then m.syncLimit.free else 0) =
      app.syncSlots j + if j = k then m'.syncLimit.free else 0 := by
  obtain ⟨hlt, -⟩ := List.getElem?_eq_some_iff.mp hm
  unfold syncSlots putManager
  simp only [List.getElem?_set]
  by_cases hj : j = k
  · subst hj
    simp only [if_true, if_pos hlt, hm, Option.elim_some]
    omega
  · rw [if_neg (Ne.symm hj), if_neg hj, if_neg hj]

theorem syncSlots_putManager_same (hm : app.managers[k]? = some m)
    (h : m'.syncLimit = m.syncLimit) : (app.putManager k m').syncSlots j = app.syncSlots j := by
  have hslots : (app.putManager k m').syncSlots j + _ = app.syncSlots j + _ :=
    syncSlots_putManager hm
  rw [h] at hslots
  omega

theorem countP_setCall (q : SyncCall → Bool) (call' : SyncCall) {l : List SyncCall}
    {call : SyncCall} (h : l[j]? = some call) :
    (l.set j call').countP q + (if q call then 1 else 0) =
      l.countP q + if q call' then 1 else 0 := by
  obtain ⟨hlt, hcall⟩ := List.getElem?_eq_some_iff.mp h
  rw [List.countP_set hlt, hcall]
  have hpos : (if q call then 1 else 0) ≤ l.countP q := by
    split
    · next hq => exact List.countP_pos_iff.mpr ⟨call, List.mem_of_getElem? h, hq⟩
    · exact Nat.zero_le _
  omega

structure Steady (app app' : App) : Prop where
  settings : app.SameSettings app'
  slots : ∀ k, app'.syncSlots k = app.syncSlots k
  callers : ∀ call ∈ app'.syncCalls, call.manager < app.managers.length ∨
    ∃ call' ∈ app.syncCalls, call'.manager = call.manager
  reloading : app'.reloading = app.reloading

theorem Steady.refl (app : App) : Steady app app :=
  ⟨.refl app, fun _ => rfl, fun call h => Or.inr ⟨call, h, rfl⟩, rfl⟩

theorem Steady.quiet (h : Steady app app') (metrics : MetricsRegistry) (closing : Bool)
    (site : Site) :
    Steady app { app' with metrics := metrics, closing := closing, site := site } where
  settings := ⟨h.settings.config, h.settings.store, h.settings.workers, h.settings.manager,
    h.settings.audit, h.settings.logging, h.settings.registries, h.settings.buckets,
    h.settings.latest, h.settings.earlier, h.settings.managers_length, h.settings.managers⟩
  slots := h.slots
  callers := h.callers
  reloading := h.reloading

theorem put_steady (hm : app.managers[k]? = some m) (hs : m.core.SameSettings p.mgr) :
    Steady app (app.put k m p) := by
  have hput : Steady app (app.putManager k { m with core := p.mgr }) :=
    ⟨.putManager hm ⟨hs, rfl, rfl, rfl⟩, fun _ => syncSlots_putManager_same hm rfl,
      fun call h => Or.inr ⟨call, h, rfl⟩, rfl⟩
  exact hput.quiet _ _ _

theorem slot_steady (limit : FifoSemaphore) (syncCalls : List SyncCall)
    (hm : app.managers[k]? = some m)
    (hother : ∀ j, j ≠ k → syncCalls.countP (SyncCall.holdsSlot j) =
      app.syncCalls.countP (SyncCall.holdsSlot j))
    (hfree : limit.free + syncCalls.countP (SyncCall.holdsSlot k) =
      m.syncLimit.free + app.syncCalls.countP (SyncCall.holdsSlot k))
    (hcallers : ∀ call ∈ syncCalls, call.manager < app.managers.length ∨
      ∃ call' ∈ app.syncCalls, call'.manager = call.manager) :
    Steady app { app.putManager k { m with syncLimit := limit } with syncCalls := syncCalls } := by
  have hput : app.SameSettings (app.putManager k { m with syncLimit := limit }) :=
    .putManager hm ⟨⟨rfl, rfl, rfl⟩, rfl, rfl, rfl⟩
  refine ⟨⟨hput.config, hput.store, hput.workers, hput.manager, hput.audit, hput.logging,
    hput.registries, hput.buckets, hput.latest, hput.earlier, hput.managers_length,
    hput.managers⟩, ?_, hcallers, rfl⟩
  intro j
  have hslots : (app.putManager k { m with syncLimit := limit }).syncSlots j + _ =
      app.syncSlots j + _ := syncSlots_putManager hm
  unfold syncSlots at hslots ⊢
  change _ + app.syncCalls.countP _ + _ = _ at hslots
  show ((app.putManager k { m with syncLimit := limit }).managers[j]?.elim 0
    fun m => m.syncLimit.free) + syncCalls.countP (SyncCall.holdsSlot j) = _
  by_cases hj : j = k
  · subst hj
    rw [if_pos rfl, if_pos rfl] at hslots
    change _ = _ + limit.free at hslots
    omega
  · have ho := hother j hj
    rw [if_neg hj, if_neg hj] at hslots
    omega

theorem holdsSlot_calling {call : SyncCall} (h : call.phase = .calling) (k : ℕ) :
    call.holdsSlot k = decide (call.manager = k) := by
  unfold SyncCall.holdsSlot
  rw [h, Bool.and_true]

theorem holdsSlot_waiting {call : SyncCall} {ticket : ℕ} (h : call.phase = .waiting ticket)
    (k : ℕ) : call.holdsSlot k = false := by
  unfold SyncCall.holdsSlot
  rw [h, Bool.and_false]

theorem callSync_steady {front : Front} {ctx : AuthContext} {worker : WorkerConfig}
    {workerId : String} {prompt : Text} {key : Json} {directory : Text} {active : ℕ}
    {out : App × Option ToolResult}
    (h : app.callSync front ctx worker workerId prompt key directory active = .ok out) :
    Steady app out.1 := by
  have hcallers : ∀ (phase : SyncPhase) (call : SyncCall), call ∈ app.syncCalls ++
      [app.syncCall front ctx worker workerId prompt key directory phase] →
      call.manager < app.managers.length ∨
        ∃ call' ∈ app.syncCalls, call'.manager = call.manager := by
    intro phase call hc
    rcases List.mem_append.mp hc with hc | hc
    · exact Or.inr ⟨call, hc, rfl⟩
    · exact Or.inl (List.mem_singleton.mp hc ▸ app.manager_lt)
  rcases callSync_ok h with ⟨-, rfl⟩ | ⟨hlocked, rfl⟩
  · have hwait : ∀ k, (app.syncCalls ++ [app.syncCall front ctx worker workerId prompt key
        directory (.waiting app.current.syncLimit.tickets)]).countP (SyncCall.holdsSlot k) =
        app.syncCalls.countP (SyncCall.holdsSlot k) := by
      intro k
      rw [List.countP_append, List.countP_singleton, holdsSlot_waiting rfl]
      rfl
    have hslot := slot_steady app.current.syncLimit.enqueue _ app.current_at (fun j _ => hwait j)
      (by rw [hwait, FifoSemaphore.free_enqueue]) (hcallers _)
    exact hslot.quiet _ _ _
  · -- The slot that is taken is the one of the call that is appended.
    have hcall : ∀ k, (app.syncCalls ++ [app.syncCall front ctx worker workerId prompt key
        directory .calling]).countP (SyncCall.holdsSlot k) =
        app.syncCalls.countP (SyncCall.holdsSlot k) + if app.manager = k then 1 else 0 := by
      intro k
      rw [List.countP_append, List.countP_singleton, holdsSlot_calling rfl]
      simp only [decide_eq_true_eq]
      rfl
    have hset : (app.syncCalls ++ [app.syncCall front ctx worker workerId prompt key
        directory .calling]).set app.syncCalls.length (app.syncCall front ctx worker workerId
          prompt key directory .calling) = app.syncCalls ++ [app.syncCall front ctx worker
            workerId prompt key directory .calling] := by
      rw [List.set_append_right _ _ (Nat.le_refl _), Nat.sub_self]
      rfl
    have htake := FifoSemaphore.free_take hlocked
    have hslot := slot_steady app.current.syncLimit.take _ app.current_at
      (fun j hj => by rw [hcall, if_neg (Ne.symm hj), Nat.add_zero])
      (by rw [hcall, if_pos rfl]; omega) (hcallers .calling)
    rw [← hset] at hslot
    exact hslot.quiet _ _ _

theorem calls_steady {front : Front} {ctx : AuthContext} {inputs : Inputs}
    (hfresh : app.fresh inputs.taskId) {out : App × Option ToolResult}
    (h : Calls env app front ctx inputs out) : Steady app out.1 := by
  cases h with
  | refused response hout => exact hout ▸ .refl app
  | sync workerId prompt key worker directory _ _ hcall => exact callSync_steady hcall
  | async request worker directory p response _ _ hcall hout =>
    have hs := (Process.call_admits hfresh hcall).settings
    have hput : Steady app (app.put app.manager app.current p) :=
      put_steady app.current_at ⟨hs.workers, hs.recovery, hs.limits⟩
    subst hout
    unfold accept
    simp only
    split
    · exact hput.quiet _ _ _
    · exact hput

theorem cancel_steady (app : App) (taskId now : String) : Steady app
    (app.put app.manager app.current ((app.process app.current).cancel taskId now).1) := by
  have hs := ((app.process app.current).cancel_revokes taskId now).settings
  exact put_steady app.current_at ⟨hs.workers, hs.recovery, hs.limits⟩

theorem resumeSync_steady {call : SyncCall} {ticket : ℕ} (hcall : app.syncCalls[j]? = some call)
    (hm : app.managers[call.manager]? = some m) (hphase : call.phase = .waiting ticket)
    (hgranted : m.syncLimit.future ticket = some .granted) :
    Steady app ((app.putManager call.manager
      { m with syncLimit := m.syncLimit.resume ticket }).sendSync j call) := by
  have hset : ∀ k, (app.syncCalls.set j { call with phase := .calling }).countP
      (SyncCall.holdsSlot k) =
      app.syncCalls.countP (SyncCall.holdsSlot k) + if call.manager = k then 1 else 0 := by
    intro k
    have hcount := countP_setCall (SyncCall.holdsSlot k) { call with phase := .calling } hcall
    rw [holdsSlot_waiting hphase, holdsSlot_calling rfl] at hcount
    simpa only [decide_eq_true_eq, Bool.false_eq_true, if_false, Nat.add_zero] using hcount
  have hresume := FifoSemaphore.free_resume hgranted
  have hslot := slot_steady (m.syncLimit.resume ticket)
    (app.syncCalls.set j { call with phase := .calling }) hm
    (fun j' hj => by rw [hset, if_neg (Ne.symm hj), Nat.add_zero])
    (by rw [hset, if_pos rfl]; omega) (fun c hc => Or.inr ?_)
  · exact hslot.quiet _ _ _
  · rcases List.mem_or_eq_of_mem_set hc with hc | rfl
    · exact ⟨c, hc, rfl⟩
    · exact ⟨call, List.mem_of_getElem? hcall, rfl⟩

theorem endedSync_steady {call : SyncCall} (hcall : app.syncCalls[j]? = some call)
    (hm : app.managers[call.manager]? = some m) (hphase : call.phase = .calling)
    (metrics : MetricsRegistry) : Steady app (app.endedSync j call m metrics) := by
  have hset : ∀ k, (app.syncCalls.set j { call with phase := .ended }).countP
      (SyncCall.holdsSlot k) + (if call.manager = k then 1 else 0) =
      app.syncCalls.countP (SyncCall.holdsSlot k) := by
    intro k
    have hcount := countP_setCall (SyncCall.holdsSlot k) { call with phase := .ended } hcall
    have hended : ({ call with phase := .ended } : SyncCall).holdsSlot k = false := by
      unfold SyncCall.holdsSlot
      rw [Bool.and_false]
    rw [holdsSlot_calling hphase, hended] at hcount
    simpa only [decide_eq_true_eq, Bool.false_eq_true, if_false, Nat.add_zero] using hcount
  have hslot := slot_steady m.syncLimit.release
    (app.syncCalls.set j { call with phase := .ended }) hm
    (fun j' hj => by
      have hcount := hset j'
      rw [if_neg (Ne.symm hj)] at hcount
      exact hcount)
    (by
      have hcount := hset call.manager
      rw [if_pos rfl] at hcount
      rw [FifoSemaphore.free_release]
      omega)
    (fun c hc => Or.inr ?_)
  · exact hslot.quiet metrics _ _
  · rcases List.mem_or_eq_of_mem_set hc with hc | rfl
    · exact ⟨c, hc, rfl⟩
    · exact ⟨call, List.mem_of_getElem? hcall, rfl⟩

theorem Steady.current (h : Steady app app') : app.current.SameSettings app'.current := by
  obtain ⟨m', hm', hs⟩ := h.settings.managers app.manager app.current app.current_at
  have hat := app'.current_at
  rw [h.settings.manager, hm'] at hat
  exact Option.some.inj hat ▸ hs

/-- What a process goes by: the configuration that was loaded last, but for the buckets and the
limit of synchronous calls. -/
structure InForce (env : Environment) (app : App) : Prop where
  config : app.config = app.latest.config
  sound : app.latest.Sound app.audit
  recovery : app.current.core.recovery = app.latest.config.recovery
  limits : app.current.core.limits = app.latest.config.limits
  settings : app.current.core.workers = app.latest.config.workers
  managerAudit : app.current.audit = app.audit
  managerStore : app.current.store = app.store
  managerWorkers : app.current.workers = app.workers
  registry : app.registries[app.workers]? =
    some (.new app.latest.config.workers app.latest.config.circuitBreaker)
  store : app.store = openStore env app.latest.config.sqlitePath
  buckets : app.buckets = (startedWith app.latest app.earlier).config.workerCallSecondsBuckets
  slots : app.syncSlots app.manager =
    (builtWith app.latest app.earlier).config.limits.syncActiveTasks
  callers : ∀ call ∈ app.syncCalls, call.manager < app.managers.length
  pending : ∀ pending, app.reloading = some pending →
    pending.config.sqlitePath ≠ app.latest.config.sqlitePath ∧
      Load.Sound ⟨pending.files, pending.config⟩ pending.audit

namespace InForce

theorem steady (h : InForce env app) (hs : Steady app app') : InForce env app' := by
  have hcurrent := hs.current
  refine ⟨?_, ?_, ?_, ?_, ?_, ?_, ?_, ?_, ?_, ?_, ?_, ?_, ?_, ?_⟩
  · rw [hs.settings.config, hs.settings.latest, h.config]
  · rw [hs.settings.latest, hs.settings.audit]
    exact h.sound
  · rw [hcurrent.core.recovery, hs.settings.latest, h.recovery]
  · rw [hcurrent.core.limits, hs.settings.latest, h.limits]
  · rw [hcurrent.core.workers, hs.settings.latest, h.settings]
  · rw [hcurrent.audit, hs.settings.audit, h.managerAudit]
  · rw [hcurrent.store, hs.settings.store, h.managerStore]
  · rw [hcurrent.workers, hs.settings.workers, h.managerWorkers]
  · rw [hs.settings.registries, hs.settings.workers, hs.settings.latest, h.registry]
  · rw [hs.settings.store, hs.settings.latest, h.store]
  · rw [hs.settings.buckets, hs.settings.latest, hs.settings.earlier, h.buckets]
  · rw [hs.slots, hs.settings.manager, hs.settings.latest, hs.settings.earlier, h.slots]
  · intro call hc
    rw [hs.settings.managers_length]
    rcases hs.callers call hc with hlt | ⟨call', hc', he⟩
    · exact hlt
    · exact he ▸ h.callers call' hc'
  · rw [hs.reloading, hs.settings.latest]
    exact h.pending

theorem attempted (h : InForce env app) (root : LoggingState) (reloading : Option PendingReload)
    (site : Site) (hpending : ∀ pending, reloading = some pending →
      pending.config.sqlitePath ≠ app.latest.config.sqlitePath ∧
        Load.Sound ⟨pending.files, pending.config⟩ pending.audit) :
    InForce env { app with logging := root, reloading := reloading, site := site } :=
  ⟨h.config, h.sound, h.recovery, h.limits, h.settings, h.managerAudit, h.managerStore,
    h.managerWorkers, h.registry, h.store, h.buckets, h.slots, h.callers, hpending⟩

end InForce

theorem installManager_inForce (h : InForce env app) {pending : PendingReload}
    (hpath : pending.config.sqlitePath ≠ app.latest.config.sqlitePath)
    (hsound : Load.Sound ⟨pending.files, pending.config⟩ pending.audit) (fault : Option Fault)
    (now : String) : InForce env (app.installManager env pending fault now).1 := by
  rcases installManager_cases env app pending fault now with ⟨w, exc, -, hout⟩ | ⟨p, hs, hout⟩
  · rw [hout]
    refine h.attempted _ none _ ?_
    intro other he
    cases he
  · rw [hout]
    obtain ⟨w', ready, -, hboot⟩ := startManager_ok hs
    have hn := current_installed env app pending p
    have hcore : (app.installed env pending p).current.core = p.mgr := congrArg TaskManager.core hn
    refine ⟨rfl, hsound, ?_, ?_, ?_, ?_, ?_, ?_, ?_, rfl, h.buckets, ?_, ?_, ?_⟩
    · rw [hcore, hboot.mgr]
      rfl
    · rw [hcore, hboot.mgr]
      rfl
    · rw [hcore, hboot.mgr]
      rfl
    · exact congrArg TaskManager.audit hn
    · exact congrArg TaskManager.store hn
    · exact congrArg TaskManager.workers hn
    · exact List.getElem?_concat_length
    · -- No call is of the new manager yet.
      have hcount : app.syncCalls.countP (SyncCall.holdsSlot app.managers.length) = 0 := by
        refine List.countP_eq_zero.mpr fun call hc => ?_
        have hlt := h.callers call hc
        unfold SyncCall.holdsSlot
        rw [decide_eq_false (by omega), Bool.false_and]
        exact Bool.false_ne_true
      unfold syncSlots
      rw [current_at, hn]
      show pending.config.limits.syncActiveTasks +
        app.syncCalls.countP (SyncCall.holdsSlot app.managers.length) =
          (builtWith ⟨pending.files, pending.config⟩
            (app.latest :: app.earlier)).config.limits.syncActiveTasks
      rw [hcount, builtWith, if_neg hpath]
      rfl
    · intro call hc
      have hlt := h.callers call hc
      show call.manager < (app.managers ++ [_]).length
      rw [List.length_append]
      exact Nat.lt_add_right _ hlt
    · intro other he
      cases he

theorem updateManager_inForce (h : InForce env app) {files : Files} {config : AppConfig}
    {audit : AuditLogger} (hpath : config.sqlitePath = app.latest.config.sqlitePath)
    (hsound : Load.Sound ⟨files, config⟩ audit)
    (hidle : app.reloading = none) : InForce env (app.updateManager files config audit) := by
  have hn := current_updateManager app files config audit
  have hcore := congrArg TaskManager.core hn
  refine ⟨rfl, hsound, ?_, ?_, ?_, ?_, ?_, ?_, ?_, ?_, h.buckets, ?_, ?_, ?_⟩
  · exact congrArg Manager.recovery hcore
  · exact congrArg Manager.limits hcore
  · exact congrArg Manager.workers hcore
  · exact congrArg TaskManager.audit hn
  · exact (congrArg TaskManager.store hn).trans h.managerStore
  · exact congrArg TaskManager.workers hn
  · exact List.getElem?_concat_length
  · show app.store = openStore env config.sqlitePath
    rw [hpath, h.store]
  · -- The semaphore stays, with the limit it was built with.
    have hslots : (app.updateManager files config audit).syncSlots app.manager =
        app.syncSlots app.manager := syncSlots_putManager_same app.current_at rfl
    show (app.updateManager files config audit).syncSlots app.manager =
      (builtWith ⟨files, config⟩ (app.latest :: app.earlier)).config.limits.syncActiveTasks
    rw [hslots, h.slots, builtWith, if_pos hpath]
  · intro call hc
    show call.manager < (app.managers.set app.manager _).length
    rw [List.length_set]
    exact h.callers call hc
  · show ∀ pending, app.reloading = some pending → _
    rw [hidle]
    intro other he
    cases he

theorem halting_steady (app : App) : Steady app app.halting := by
  have hs := (app.process app.current).stop_settings
  exact put_steady app.current_at ⟨hs.workers, hs.recovery, hs.limits⟩

theorem configureLogging_ok {files : Files} {config : LoggingConfig} {root root' : LoggingState}
    (h : configureLogging files root config = (root', .ok ())) (other : LoggingState) :
    ∃ other', configureLogging files other config = (other', .ok ()) := by
  unfold configureLogging at h ⊢
  simp only at h ⊢
  split at h
  · cases h
  · split at h
    · exact ⟨_, rfl⟩
    · exact ⟨_, rfl⟩
    · cases h

theorem reloadConfig_inForce (h : InForce env app) (hidle : app.reloading = none) {front : Front}
    {ctx : AuthContext} {files : Files} {loaded : Except PyExc AppConfig} {fault : Option Fault}
    {now : String} : InForce env (app.reloadConfig env front ctx files loaded fault now).1 := by
  have hlogged : ∀ root, InForce env (app.logged root) :=
    fun root => h.attempted root app.reloading app.site h.pending
  have hsound : ∀ {config root audit},
      configureLogging files app.logging config.logging = (root, .ok ()) →
      AuditLogger.new files config.audit = .ok audit → Load.Sound ⟨files, config⟩ audit :=
    fun hlog haudit => ⟨fun other => configureLogging_ok hlog other, haudit⟩
  have hreloads := reloadConfig_reloads env app front ctx files loaded fault now
  generalize app.reloadConfig env front ctx files loaded fault now = out at hreloads ⊢
  cases hreloads with
  | unloaded => exact h
  | unlogged config root => exact hlogged root
  | unaudited config root => exact hlogged root
  | refused config root => exact hlogged root
  | installs config root audit hlog haudit hpath =>
    rw [h.config] at hpath
    have hhalting := (hlogged root).steady (halting_steady _)
    exact installManager_inForce hhalting hpath (hsound hlog haudit) _ _
  | waits config root audit hlog haudit hpath =>
    rw [h.config] at hpath
    have hhalting := (hlogged root).steady (halting_steady _)
    refine hhalting.attempted root (some _) _ ?_
    intro pending hpending
    cases hpending
    exact ⟨hpath, hsound hlog haudit⟩
  | updates config root audit hlog haudit hpath =>
    rw [h.config] at hpath
    exact updateManager_inForce (hlogged root) hpath (hsound hlog haudit) hidle

theorem step_inForce {event : AppEvent} {reply : Option Reply} (hg : app.Guarded)
    (h : InForce env app) (hstep : app.step env event = some (app', reply)) :
    InForce env app' := by
  cases step_does hstep with
  | idle => exact h
  | operates request ctx inputs front operation _ _ hfresh =>
    have hop := operate_operates env app front ctx operation inputs
    generalize (app.operate env front ctx operation inputs).1 = app' at hop ⊢
    cases hop with
    | same => exact h
    | calls workerId prompt mode key out hcalls => exact h.steady (calls_steady hfresh hcalls)
    | cancels taskId => exact h.steady (cancel_steady app taskId inputs.now)
    | reloads hidle => exact reloadConfig_inForce h hidle
  | resumeSync j call m ticket hcall hm hphase hgranted =>
    exact h.steady (resumeSync_steady hcall hm hphase hgranted)
  | endSync j outcome call m metrics reply hcall hm hphase =>
    exact h.steady (endedSync_steady hcall hm hphase metrics)
  | resumeReload fault now pending m gathered hpending hm =>
    have hput : Steady app (app.put pending.manager m (app.process m).stopped) :=
      put_steady hm ⟨rfl, rfl, rfl⟩
    obtain ⟨hpath, hsound⟩ := h.pending pending hpending
    exact installManager_inForce (h.steady hput) hpath hsound fault now
  | background k action m p hm hco hact =>
    have hs := (Process.act_stretch (hg.held m (List.mem_of_getElem? hm)) hco hact).settings
    have hput : Steady app (app.put k m p) := put_steady hm ⟨hs.workers, hs.recovery, hs.limits⟩
    exact h.steady (hput.quiet _ _ _)
  | shutdown m hm =>
    have hs := (app.process m).stop_settings
    have hput : Steady app (app.put 0 m (app.process m).stop) :=
      put_steady hm ⟨hs.workers, hs.recovery, hs.limits⟩
    exact h.steady (hput.quiet _ _ _)
  | stopped m hm => exact h.steady (put_steady hm ⟨rfl, rfl, rfl⟩)

/-- The values that a process enforces are those of another one. -/
structure Agrees (hot cold : App) : Prop where
  config : hot.config = cold.config
  recovery : hot.current.core.recovery = cold.current.core.recovery
  limits : hot.current.core.limits = cold.current.core.limits
  settings : hot.current.core.workers = cold.current.core.workers
  slots : hot.syncSlots hot.manager = cold.syncSlots cold.manager
  registry : hot.registries[hot.workers]? = cold.registries[cold.workers]?
  audit : hot.audit = cold.audit
  buckets : hot.buckets = cold.buckets
  store : hot.store = cold.store
  managerAudit : hot.current.audit = hot.audit
  managerStore : hot.current.store = hot.store
  managerWorkers : hot.current.workers = hot.workers

theorem createApp_inForce {files : Files} {root : LoggingState} {site : Site} {config : AppConfig}
    {now : String} {cold : App} (h : createApp env files root site config now = .ok cold) :
    InForce env cold ∧ cold.latest = ⟨files, config⟩ ∧ cold.earlier = [] := by
  obtain ⟨root', audit, p, hlog, haudit, hstart, rfl⟩ := createApp_ok h
  obtain ⟨w', ready, -, hboot⟩ := startManager_ok hstart
  refine ⟨⟨rfl, ⟨fun other => configureLogging_ok hlog other, haudit⟩, ?_, ?_, ?_, rfl, rfl,
    rfl, rfl, rfl, rfl, rfl, ?_, ?_⟩, rfl, rfl⟩
  · exact congrArg Manager.recovery hboot.mgr
  · exact congrArg Manager.limits hboot.mgr
  · exact congrArg Manager.workers hboot.mgr
  · intro call hc
    cases hc
  · intro other he
    cases he

theorem InForce.exists_cold (h : InForce env app) (root : LoggingState) (site : Site)
    (now : String) : ∃ cold, createApp env app.latest.files root site app.latest.config now =
      .ok cold := by
  obtain ⟨root', hroot⟩ := h.sound.log root
  obtain ⟨p, hp⟩ := exists_start (site.disk (openStore env app.latest.config.sqlitePath).file)
    ⟨app.latest.config.workers, app.latest.config.recovery, app.latest.config.limits⟩ now
  have hs : startManager (site.disk (openStore env app.latest.config.sqlitePath).file)
      app.latest.config none now = .ok p := by
    unfold startManager
    rw [hp]
  unfold createApp
  simp only [hroot, h.sound.audit, hs]
  exact ⟨_, rfl⟩

theorem InForce.agrees_iff {hot cold : App} (h : InForce env hot) (h' : InForce env cold)
    (hlatest : cold.latest = hot.latest) (hearlier : cold.earlier = []) :
    hot.Agrees cold ↔
      (startedWith hot.latest hot.earlier).config.workerCallSecondsBuckets =
        hot.latest.config.workerCallSecondsBuckets ∧
      (builtWith hot.latest hot.earlier).config.limits.syncActiveTasks =
        hot.latest.config.limits.syncActiveTasks := by
  have hbuckets : cold.buckets = hot.latest.config.workerCallSecondsBuckets := by
    rw [h'.buckets, hearlier, hlatest]
    rfl
  have hslots : cold.syncSlots cold.manager = hot.latest.config.limits.syncActiveTasks := by
    rw [h'.slots, hearlier, hlatest]
    rfl
  constructor
  · intro ha
    refine ⟨?_, ?_⟩
    · rw [← h.buckets, ha.buckets, hbuckets]
    · rw [← h.slots, ha.slots, hslots]
  · rintro ⟨hb, hs⟩
    refine ⟨?_, ?_, ?_, ?_, ?_, ?_, ?_, ?_, ?_, h.managerAudit, h.managerStore, h.managerWorkers⟩
    · rw [h.config, h'.config, hlatest]
    · rw [h.recovery, h'.recovery, hlatest]
    · rw [h.limits, h'.limits, hlatest]
    · rw [h.settings, h'.settings, hlatest]
    · rw [h.slots, hs, hslots]
    · rw [h.registry, h'.registry, hlatest]
    · have haudit := h'.sound.audit
      rw [hlatest, h.sound.audit] at haudit
      exact Except.ok.inj haudit
    · rw [h.buckets, hb, hbuckets]
    · rw [h.store, h'.store, hlatest]

end App

namespace Server

variable {env : Environment} {disk : Text → World}

def InForce (env : Environment) : Server → Prop
  | down _ => True
  | up app => app.InForce env

theorem inForce_of_reachable {s : Server} (h : (machine env disk).Reachable Runs.anyStep s) :
    s.InForce env := by
  refine h.invariant' trivial ?_
  intro s e s' hreach _ hi hstep
  cases step_steps hstep with
  | started site files root config now app happ =>
    exact (App.createApp_inForce (created_eq_some.mp happ)).1
  | startCrashed | actCrashed | crashed => trivial
  | acted app event app' reply happ =>
    exact App.step_inForce (guards_of_reachable hreach) hi happ

/-- After any number of reloads a process goes by what `create_app` would set up, if and only if
the configuration loaded last has the buckets the process began with and the limit of synchronous
calls that the current manager was built with. -/
theorem reload_agrees_iff {app : App} (h : (machine env disk).Reachable Runs.anyStep (up app))
    (root : LoggingState) (site : Site) (now : String) :
    ∃ cold, createApp env app.latest.files root site app.latest.config now = .ok cold ∧
      (app.Agrees cold ↔
        (startedWith app.latest app.earlier).config.workerCallSecondsBuckets =
          app.latest.config.workerCallSecondsBuckets ∧
        (builtWith app.latest app.earlier).config.limits.syncActiveTasks =
          app.latest.config.limits.syncActiveTasks) := by
  have hot : app.InForce env := inForce_of_reachable h
  obtain ⟨cold, hcreate⟩ := hot.exists_cold root site now
  obtain ⟨hcold, hlatest, hearlier⟩ := App.createApp_inForce hcreate
  exact ⟨cold, hcreate, hot.agrees_iff hcold hlatest hearlier⟩

/-- Another recovery policy, with the buckets and the limits there were. -/
def replaying : AppConfig := { Sample.appConfig "/a".toList with recovery := ⟨.always, 0⟩ }

/-- Other buckets, and one synchronous call at a time. -/
def narrowed : AppConfig :=
  { Sample.appConfig "/a".toList with
    workerCallSecondsBuckets := [2]
    limits := { Sample.limits none Sample.unlimited with
      syncActiveTasks := 1
      syncActiveTasks_pos := by decide }
    buckets_ne_nil := by decide
    buckets_increasing := by decide }

/-- A reload that does as `create_app` does. -/
theorem reload_agrees_iff_replaying : ∃ app cold : App, app.earlier.length = 1 ∧
    app.config.recovery.policy = .always ∧ app.Agrees cold := by
  obtain ⟨app, hs, hp⟩ := exists_running Sample.environment (fun _ => World.empty)
    [Sample.start (Sample.appConfig "/a".toList), .act (Sample.reload Sample.operator replaying)]
    (fun app => decide (app.earlier.length = 1) &&
      (decide (app.config.recovery.policy = .always) &&
        (decide ((startedWith app.latest app.earlier).config.workerCallSecondsBuckets =
            app.latest.config.workerCallSecondsBuckets) &&
          decide ((builtWith app.latest app.earlier).config.limits.syncActiveTasks =
            app.latest.config.limits.syncActiveTasks)))) (by decide)
  simp only [Bool.and_eq_true, decide_eq_true_eq] at hp
  obtain ⟨hlength, hpolicy, hcond⟩ := hp
  obtain ⟨cold, -, hiff⟩ := reload_agrees_iff hs Sample.root app.site "t2"
  exact ⟨app, cold, hlength, hpolicy, hiff.mpr hcond⟩

/-- Buckets and the limit of synchronous calls stay as they were. -/
theorem reload_keeps_captured : ¬ ∀ app : App,
    (machine Sample.environment fun _ => World.empty).Reachable Runs.anyStep (up app) →
      ∀ root site now cold,
        createApp Sample.environment app.latest.files root site app.latest.config now = .ok cold →
          app.Agrees cold := by
  intro hall
  obtain ⟨app, hs, hp⟩ := exists_running Sample.environment (fun _ => World.empty)
    [Sample.start (Sample.appConfig "/a".toList), .act (Sample.reload Sample.operator narrowed)]
    (fun app => (createApp Sample.environment app.latest.files Sample.root app.site
      app.latest.config "t2").toOption.any fun cold : App =>
        decide (app.buckets ≠ cold.buckets) &&
          decide (app.syncSlots app.manager ≠ cold.syncSlots cold.manager)) (by decide)
  cases hcreate : createApp Sample.environment app.latest.files Sample.root app.site
      app.latest.config "t2" with
  | error exc =>
    rw [hcreate] at hp
    cases hp
  | ok cold =>
    have hagrees := hall app hs Sample.root app.site "t2" cold hcreate
    rw [hcreate, Except.toOption, Option.any_some, Bool.and_eq_true, decide_eq_true_iff] at hp
    exact hp.1 hagrees.buckets

end Server

end WorkerBridge
