import WorkerBridge.Confinement
import WorkerBridge.Scopes

namespace WorkerBridge

open PosixPath

theorem allowed_of_resolve {host : Host} {worker : WorkerConfig} {prompt d : Text}
    (h : resolveWorkingDirectory host worker prompt = .ok d)
    (hlexical : worker.filesystem.canonicalize = false) :
    pathIsAllowed host d worker.filesystem.write false = .ok true := by
  obtain ⟨v, -, hallowed, hsend⟩ := resolveWorkingDirectory_eq_ok h
  rw [hlexical] at hallowed hsend
  obtain ⟨ha, hd⟩ := safeNormalize_of_pathIsAllowed hallowed
  simp only [normalizeForDispatch, safeNormalize_of ha hd, Bool.false_eq_true, if_false] at hsend
  cases hsend
  rw [pathIsAllowed_lexical ha hd] at hallowed
  rw [normpath_idem ha hd,
    pathIsAllowed_lexical (absolute_normpath ha hd) (dotdot_not_mem_normpath ha hd),
    normpath_idem ha hd]
  exact hallowed

theorem Manager.mem_of_worker {m : Manager} {workerId : String} {worker : WorkerConfig}
    (h : m.worker workerId = .ok worker) : worker ∈ m.workers ∧ worker.workerId = workerId := by
  unfold Manager.worker at h
  split at h
  · next w hfind =>
    cases h
    exact ⟨List.mem_reverse.mp (List.mem_of_find?_eq_some hfind), by
      simpa using List.find?_some hfind⟩
  · cases h

def AppConfig.Lexical (config : AppConfig) : Prop :=
  ∀ w ∈ config.workers, w.filesystem.canonicalize = false

instance (config : AppConfig) : Decidable config.Lexical :=
  inferInstanceAs (Decidable (∀ w ∈ config.workers, w.filesystem.canonicalize = false))

/-- A call for the worker in the directory goes back to a request that was accepted, and to the
settings that allowed the directory then. -/
def Backed (host : Host) (admissions : List Admission) (source : Source) (workerId : String)
    (directory : Option Text) : Prop :=
  ∃ a ∈ admissions, a.source = source ∧ a.worker.workerId = workerId ∧
    directory = some a.workingDirectory ∧
    pathIsAllowed host a.workingDirectory a.worker.filesystem.write false = .ok true

theorem Backed.mono {host : Host} {admissions admissions' : List Admission} {source : Source}
    {workerId : String} {directory : Option Text}
    (h : Backed host admissions source workerId directory) (hle : admissions ⊆ admissions') :
    Backed host admissions' source workerId directory := by
  obtain ⟨a, ha, hrest⟩ := h
  exact ⟨a, hle ha, hrest⟩

def TaskRecord.Backed (host : Host) (admissions : List Admission) (file : Text)
    (r : TaskRecord) : Prop :=
  WorkerBridge.Backed host admissions (.task file r.taskId) r.workerId r.workingDirectory

theorem TaskRecord.Backed.carried {host : Host} {admissions : List Admission} {file : Text}
    {t r : TaskRecord} (h : t.Backed host admissions file) (hc : t.Carries r) :
    r.Backed host admissions file := by
  obtain ⟨a, ha, hsource, hworker, hdirectory, hallowed⟩ := h
  refine ⟨a, ha, ?_, ?_, ?_, hallowed⟩
  · rw [hc.taskId]
    exact hsource
  · rw [hc.workerId]
    exact hworker
  · rw [hc.directory (hdirectory ▸ Option.some_ne_none _)]
    exact hdirectory

/-- All rows of the store are such that `Q`. -/
def Store.All (Q : TaskRecord → Prop) (s : Store) : Prop := ∀ id r, s.get id = some r → Q r

variable {Q : TaskRecord → Prop}

theorem Store.All.set {s s' : Store} {id : String} {r : TaskRecord} (h : s.All Q)
    (hset : RowSet s.get s'.get id r) (hr : Q r) : s'.All Q := by
  intro id' r' hr'
  rw [hset id'] at hr'
  split at hr'
  · cases hr'
    exact hr
  · exact h id' r' hr'

theorem World.MarksMany.writes {w w' : World} (h : w.MarksMany w') (hq : w.store.All Q)
    (hcarried : ∀ t r, Q t → t.Carries r → Q r) : w.Writes (Store.All Q) w' := by
  induction h with
  | refl => exact .of_same rfl rfl
  | @tail v w' _ hm ih =>
    have hv : v.store.All Q := by
      rcases ih.store with he | hall
      · exact he ▸ hq
      · exact hall
    cases hm with
    -- The marked row asks for what the row asked for.
    | @mk now r store hrow _ _ hstore =>
      have hset : RowSet v.store.get store.get r.taskId (Store.markRecovering r now) :=
        RowSet.of_upsert hrow rfl rfl hstore
      refine ih.trans (.of_write (hv.set hset ?_) rfl)
      exact hcarried r _ (hv _ r hrow) ⟨rfl, rfl, rfl, fun _ => rfl⟩

theorem Booted.writes {w w' : World} {settings : Settings} {ready : List TaskRecord}
    {p : Process} {P : Store → Prop} (hb : Booted w' settings ready p) (h : w.Writes P w') :
    w.Writes P p.world := by
  rw [hb.world]
  exact h

namespace Process

variable {p p' : Process} {host : Host}

/-- A copy that a coroutine sleeps on is such that `Q`. -/
def Copies (Q : TaskRecord → Prop) (m : Manager) : Prop :=
  ∀ (i : ℕ) (k : Handle) (t : TaskRecord), m.handles[i]? = some k → k.phase = .sleeping t → Q t

theorem Knows.all {t : TaskRecord} (hk : p.Knows t) (hrows : p.store.All Q)
    (hcopies : Copies Q p.mgr) : Q t := by
  cases hk with
  | row h => exact hrows _ t h
  | sleeping hat hph => exact hcopies _ _ t hat hph

theorem Sleeps.copies {m : Manager} (h : p.Sleeps m) (hrows : p.store.All Q)
    (hcopies : Copies Q p.mgr) : Copies Q m := by
  intro i k t hat hph
  rcases h i k t hat hph with ⟨-, hrow⟩ | ⟨k', hat', hph'⟩
  · exact hrows _ t hrow
  · exact hcopies i k' t hat' hph'

theorem Stretch.all (h : p.Stretch p') (hrows : p.store.All Q) (hcopies : Copies Q p.mgr)
    (hcarried : ∀ t r, Q t → t.Carries r → Q r) :
    p.world.Writes (Store.All Q) p'.world := by
  refine h.writes.mono fun s hs id r hr => ?_
  rcases hs id with he | ⟨r₀, r', -, hr', hrw⟩
  · exact hrows id r (he.symm.trans hr)
  · obtain rfl : r' = r := Option.some.inj (hr'.symm.trans hr)
    obtain ⟨t, hk, hc⟩ := hrw.known
    exact hcarried t r' (hk.all hrows hcopies) hc

theorem Revokes.all {taskId : String} (h : p.Revokes taskId p') (hrows : p.store.All Q)
    (hcarried : ∀ t r, Q t → t.Carries r → Q r) :
    p.world.Writes (Store.All Q) p'.world := by
  refine h.writes.mono fun s hs => ?_
  obtain ⟨t, r, ht, hset, hc⟩ := hs
  exact hrows.set hset (hcarried t r (hrows _ t ht) hc)

end Process

namespace Site

variable {host : Host} {site : Site}

def Kept (host : Host) (site : Site) : Prop :=
  ∀ file, (site.disk file).store.All (TaskRecord.Backed host site.admissions file)

theorem Kept.marks (hk : site.Kept host) {file : Text} {w : World}
    (hm : (site.disk file).MarksMany w) :
    (site.disk file).Writes (Store.All (TaskRecord.Backed host site.admissions file)) w :=
  hm.writes (hk file) fun _ _ ht hc => ht.carried hc

theorem Kept.write (hk : site.Kept host) {file : Text} {w : World}
    (hw : (site.disk file).Writes (Store.All (TaskRecord.Backed host site.admissions file)) w) :
    (∀ f, (site.disk f).Writes (Store.All (TaskRecord.Backed host site.admissions f))
      ((site.write file w).disk f)) ∧ (site.write file w).Kept host := by
  have hwrites : ∀ f, (site.disk f).Writes
      (Store.All (TaskRecord.Backed host site.admissions f)) ((site.write file w).disk f) := by
    intro f
    show World.Writes _ _ (Function.update site.disk file w f)
    rw [Function.update_apply]
    split
    · next hf =>
      subst hf
      exact hw
    · exact .of_same rfl rfl
  refine ⟨hwrites, fun f => ?_⟩
  rcases (hwrites f).store with he | hall
  · rw [he]
    exact hk f
  · exact hall

/-- What was sent goes back to requests that were accepted, too. -/
structure Policed (host : Host) (site : Site) : Prop where
  rows : site.Kept host
  dispatched : ∀ d ∈ site.dispatched,
    Backed host site.admissions d.source d.workerId d.workingDirectory

end Site

/-- No configuration that the step loads canonicalizes. -/
def AppEvent.Lexical : AppEvent → Prop
  | request _ _ inputs => match inputs.loaded with
    | .ok config => config.Lexical
    | .error _ => True
  | _ => True

instance : DecidablePred AppEvent.Lexical
  | .request _ _ ⟨_, _, _, _, .ok config, _⟩ => inferInstanceAs (Decidable config.Lexical)
  | .request _ _ ⟨_, _, _, _, .error _, _⟩ => isTrue trivial
  | .resumeSync .. => isTrue trivial
  | .endSync .. => isTrue trivial
  | .resumeReload .. => isTrue trivial
  | .background .. => isTrue trivial
  | .shutdown => isTrue trivial
  | .stopped => isTrue trivial

namespace App

variable {env : Environment} {host : Host} {app app' app'' : App} {k : ℕ} {m m' : TaskManager}
  {p : Process}

/-- Everything that can come to a call goes back to a request that was accepted. -/
structure Policed (host : Host) (app : App) : Prop where
  rows : app.site.Kept host
  copies : ∀ m ∈ app.managers,
    Process.Copies (TaskRecord.Backed host app.site.admissions m.store.file) m.core
  lexical : ∀ m ∈ app.managers, ∀ w ∈ m.core.workers, w.filesystem.canonicalize = false
  pending : ∀ pending, app.reloading = some pending → pending.config.Lexical
  calls : ∀ (j : ℕ) (call : SyncCall), app.syncCalls[j]? = some call →
    Backed host app.site.admissions (.sync app.site.processes j) call.workerId
      (some call.workingDirectory)
  dispatched : ∀ d ∈ app.site.dispatched,
    Backed host app.site.admissions d.source d.workerId d.workingDirectory

/-- What a step does: the stores it goes through are those of requests that were accepted, and
a request is accepted by the settings of the current manager. -/
structure Obeys (host : Host) (app app' : App) : Prop where
  policed : app'.Policed host
  writes : ∀ file, (app.site.disk file).Writes
    (Store.All (TaskRecord.Backed host app'.site.admissions file)) (app'.site.disk file)
  admissions : app.site.admissions ⊆ app'.site.admissions

theorem Obeys.refl (h : app.Policed host) : Obeys host app app :=
  ⟨h, fun _ => .of_same rfl rfl, List.Subset.refl _⟩

theorem Obeys.trans (h : Obeys host app app') (h' : Obeys host app' app'') :
    Obeys host app app'' where
  policed := h'.policed
  writes file := ((h.writes file).mono fun _ hs id r hr =>
    Backed.mono (hs id r hr) h'.admissions).trans (h'.writes file)
  admissions := List.Subset.trans h.admissions h'.admissions

theorem quiet_obeys (hp : app.Policed host) (metrics : MetricsRegistry)
    (syncCalls : List SyncCall) (reloading : Option PendingReload) (closing : Bool) (site : Site)
    (hdisk : site.disk = app.site.disk) (hprocesses : site.processes = app.site.processes)
    (hadmissions : app.site.admissions ⊆ site.admissions)
    (hcalls : ∀ (j : ℕ) (call : SyncCall), syncCalls[j]? = some call →
      Backed host site.admissions (.sync app.site.processes j) call.workerId
        (some call.workingDirectory))
    (hreloading : ∀ pending, reloading = some pending → pending.config.Lexical)
    (hdispatched : ∀ d ∈ site.dispatched, Backed host site.admissions d.source d.workerId
      d.workingDirectory) :
    Obeys host app { app with
      metrics := metrics
      syncCalls := syncCalls
      reloading := reloading
      closing := closing
      site := site } := by
  -- Only the admissions, the synchronous calls, the reload and what was sent can change.
  refine ⟨⟨?_, ?_, hp.lexical, hreloading, ?_, hdispatched⟩, ?_, hadmissions⟩
  · intro file id r hr
    show r.Backed host site.admissions file
    change (site.disk file).store.get id = some r at hr
    rw [hdisk] at hr
    exact (hp.rows file id r hr).mono hadmissions
  · intro m hm i k t hat hph
    exact (hp.copies m hm i k t hat hph).mono hadmissions
  · intro j call hcall
    show Backed host site.admissions (.sync site.processes j) call.workerId _
    rw [hprocesses]
    exact hcalls j call hcall
  · intro file
    show World.Writes _ (app.site.disk file) (site.disk file)
    rw [hdisk]
    exact .of_same rfl rfl

theorem put_obeys (hp : app.Policed host) (hm : app.managers[k]? = some m)
    (hworkers : p.mgr.workers = m.core.workers) (hsleep : (app.process m).Sleeps p.mgr)
    (hrows : (app.process m).world.Writes
      (Store.All (TaskRecord.Backed host app.site.admissions m.store.file)) p.world) :
    Obeys host app (app.put k m p) := by
  have hmem := List.mem_of_getElem? hm
  have hwrites : ∀ file, (app.site.disk file).Writes
      (Store.All (TaskRecord.Backed host app.site.admissions file))
      ((app.put k m p).site.disk file) := by
    intro file
    rw [disk_put]
    split
    · next hf =>
      subst hf
      exact hrows
    · exact .of_same rfl rfl
  refine ⟨⟨?_, ?_, ?_, hp.pending, hp.calls, hp.dispatched⟩, hwrites, List.Subset.refl _⟩
  · intro file
    rcases (hwrites file).store with he | hall
    · rw [he]
      exact hp.rows file
    · exact hall
  · intro n hn
    rcases mem_putManager hn with rfl | hn
    · exact hsleep.copies (hp.rows m.store.file) (hp.copies m hmem)
    · exact hp.copies n hn
  · intro n hn w hw
    rcases mem_putManager hn with rfl | hn
    · exact hp.lexical m hmem w (hworkers ▸ hw)
    · exact hp.lexical n hn w hw

theorem putManager_obeys (hp : app.Policed host) (hm : app.managers[k]? = some m)
    (hcore : m'.core = m.core) (hstore : m'.store = m.store) :
    Obeys host app (app.putManager k m') := by
  have hmem := List.mem_of_getElem? hm
  refine ⟨⟨hp.rows, ?_, ?_, hp.pending, hp.calls, hp.dispatched⟩, fun _ => .of_same rfl rfl,
    List.Subset.refl _⟩
  · intro n hn
    rcases mem_putManager hn with rfl | hn
    · rw [hcore, hstore]
      exact hp.copies m hmem
    · exact hp.copies n hn
  · intro n hn
    rcases mem_putManager hn with rfl | hn
    · rw [hcore]
      exact hp.lexical m hmem
    · exact hp.lexical n hn

/-- A new admission, by the settings that allow its directory. -/
def admitted (app : App) (a : Admission) : App :=
  { app with site := { app.site with admissions := a :: app.site.admissions } }

theorem admitted_obeys (hp : app.Policed host) (a : Admission) :
    Obeys host app (app.admitted a) := by
  have hle : app.site.admissions ⊆ a :: app.site.admissions := List.subset_cons_self a _
  exact quiet_obeys hp _ _ _ _ _ rfl rfl hle
    (fun j call hcall => (hp.calls j call hcall).mono hle) hp.pending
    fun d hd => (hp.dispatched d hd).mono hle

theorem backed_admitted {a : Admission}
    (h : pathIsAllowed host a.workingDirectory a.worker.filesystem.write false = .ok true) :
    Backed host (app.admitted a).site.admissions a.source a.worker.workerId
      (some a.workingDirectory) :=
  ⟨a, List.mem_cons_self, rfl, rfl, rfl, h⟩

theorem sendSync_obeys (hp : app.Policed host) {j : ℕ} {call : SyncCall}
    (hcall : app.syncCalls[j]? = some call) : Obeys host app (app.sendSync j call) := by
  have hbacked := hp.calls j call hcall
  refine quiet_obeys hp _ _ _ _ _ rfl rfl (List.Subset.refl _) ?_ hp.pending ?_
  · intro j' call' hcall'
    rw [List.getElem?_set] at hcall'
    split at hcall'
    · next he =>
      subst he
      split at hcall'
      · cases hcall'
        exact hbacked
      · cases hcall'
    · exact hp.calls j' call' hcall'
  · intro d hd
    rcases List.mem_cons.mp hd with rfl | hd
    · exact hbacked
    · exact hp.dispatched d hd

theorem withSync_obeys (hp : app.Policed host) {limit : FifoSemaphore} {call : SyncCall}
    (hcall : Backed host app.site.admissions (.sync app.site.processes app.syncCalls.length)
      call.workerId (some call.workingDirectory)) :
    Obeys host app (app.withSync limit call) := by
  have hput : Obeys host app
      (app.putManager app.manager { app.current with syncLimit := limit }) :=
    putManager_obeys hp app.current_at rfl rfl
  refine hput.trans (quiet_obeys hput.policed _ _ _ _ _ rfl rfl (List.Subset.refl _) ?_
    hp.pending hp.dispatched)
  intro j call' hcall'
  rw [List.getElem?_append] at hcall'
  split at hcall'
  · exact hp.calls j call' hcall'
  · rw [List.getElem?_singleton] at hcall'
    split at hcall'
    · next hge h0 =>
      cases hcall'
      have hj : j = app.syncCalls.length := by
        change ¬ j < app.syncCalls.length at hge
        change j - app.syncCalls.length = 0 at h0
        omega
      exact hj ▸ hcall
    · cases hcall'

theorem lexical_current (hp : app.Policed host) {workerId : String} {worker : WorkerConfig}
    (h : app.current.core.worker workerId = .ok worker) :
    worker.filesystem.canonicalize = false :=
  hp.lexical app.current (List.mem_of_getElem? app.current_at) worker (Manager.mem_of_worker h).1

theorem callSync_obeys (hp : app.Policed host) {front : Front} {ctx : AuthContext}
    {worker : WorkerConfig} {workerId : String} {prompt : Text} {key : Json} {directory : Text}
    {active : ℕ} {out : App × Option ToolResult}
    (hworker : app.current.core.worker workerId = .ok worker)
    (hdirectory : resolveWorkingDirectory host worker prompt = .ok directory)
    (h : app.callSync front ctx worker workerId prompt key directory active = .ok out) :
    Obeys host app out.1 := by
  have hallowed := allowed_of_resolve hdirectory (lexical_current hp hworker)
  have hnew := admitted_obeys hp
    ⟨.sync app.site.processes app.syncCalls.length, worker, directory⟩
  have hcall : Backed host (app.admitSync worker directory).site.admissions
      (.sync app.site.processes app.syncCalls.length) workerId (some directory) :=
    (Manager.mem_of_worker hworker).2 ▸ backed_admitted hallowed
  have hwith : ∀ limit phase, Obeys host app ((app.admitSync worker directory).withSync limit
      (app.syncCall front ctx worker workerId prompt key directory phase)) :=
    fun limit phase => hnew.trans (withSync_obeys hnew.policed hcall)
  rcases callSync_ok h with ⟨-, rfl⟩ | ⟨-, rfl⟩
  · exact hwith _ _
  · exact (hwith _ _).trans (sendSync_obeys (hwith _ _).policed List.getElem?_concat_length)

theorem accept_obeys (hp : app.Policed env.host) {inputs : Inputs} {request : CallRequest}
    {worker : WorkerConfig} {directory : Text} {response : Response} {p : Process}
    (hfresh : app.fresh inputs.taskId)
    (hworker : app.current.core.worker request.workerId = .ok worker)
    (hdirectory : resolveWorkingDirectory env.host worker request.prompt = .ok directory)
    (h : (app.process app.current).call env.host request inputs.taskId inputs.now =
      .ok (p, response)) :
    Obeys env.host app (app.accept p inputs.taskId worker directory) := by
  have hadmits := Process.call_admits hfresh h
  rcases hadmits.rows with ⟨hstore, hpast⟩ | hins
  · -- The key was known, and the rows are those there were.
    have hput : Obeys env.host app (app.put app.manager app.current p) :=
      put_obeys hp app.current_at hadmits.settings.workers hadmits.sleeping (.of_same hstore hpast)
    have hnone : p.row inputs.taskId = none := by
      rw [show p.row = (app.process app.current).row from congrArg Store.get hstore]
      exact hfresh
    unfold accept
    simp only [hnone, Option.isSome_none, Bool.false_eq_true, if_false]
    exact hput
  · obtain ⟨worker', directory', timeoutSeconds, now, hworker', hdirectory', hset⟩ := hins.row
    obtain rfl : worker = worker' := Except.ok.inj (hworker.symm.trans hworker')
    obtain rfl : directory = directory' := Except.ok.inj (hdirectory.symm.trans hdirectory')
    have hallowed := allowed_of_resolve hdirectory (lexical_current hp hworker)
    have hnew := admitted_obeys hp
      ⟨.task app.current.store.file inputs.taskId, worker, directory⟩
    have hbacked : Backed env.host (app.admitted
        ⟨.task app.current.store.file inputs.taskId, worker, directory⟩).site.admissions
        (.task app.current.store.file inputs.taskId) request.workerId (some directory) :=
      (Manager.mem_of_worker hworker).2 ▸ backed_admitted hallowed
    have hput := put_obeys hnew.policed (p := p) app.current_at hadmits.settings.workers
      hadmits.sleeping (.of_write ((hnew.policed.rows _).set hset hbacked) hins.past)
    unfold accept
    simp only [hset.self, Option.isSome_some, if_true]
    exact hnew.trans hput

theorem logged_obeys (hp : app.Policed host) (root : LoggingState) :
    Obeys host app (app.logged root) :=
  ⟨⟨hp.rows, hp.copies, hp.lexical, hp.pending, hp.calls, hp.dispatched⟩,
    fun _ => .of_same rfl rfl, List.Subset.refl _⟩

theorem halting_obeys (hp : app.Policed host) : Obeys host app app.halting := by
  refine put_obeys hp app.current_at (Process.stop_settings _).workers (Process.stop_sleeps _) ?_
  rw [Process.stop_world]
  exact .of_same rfl rfl

theorem installManager_obeys (hp : app.Policed host) (pending : PendingReload)
    (hlexical : pending.config.Lexical)
    (fault : Option Fault) (now : String) :
    Obeys host app (app.installManager env pending fault now).1 := by
  rcases installManager_cases env app pending fault now with ⟨w, exc, hs, hout⟩ | ⟨p, hs, hout⟩
  · rw [hout]
    have hw := hp.rows.write (hp.rows.marks (startManager_error hs))
    refine ⟨⟨hw.2, hp.copies, hp.lexical, ?_, hp.calls, hp.dispatched⟩, hw.1,
      List.Subset.refl _⟩
    intro other he
    cases he
  · rw [hout]
    obtain ⟨w', ready, hm, hboot⟩ := startManager_ok hs
    have hw := hp.rows.write (hboot.writes (hp.rows.marks hm))
    refine ⟨⟨hw.2, ?_, ?_, ?_, hp.calls, hp.dispatched⟩, hw.1, List.Subset.refl _⟩
    · intro n hn
      rcases List.mem_append.mp hn with hn | hn
      · exact hp.copies n hn
      · obtain rfl := List.mem_singleton.mp hn
        exact fun i k t hat hph => (hboot.awake hat hph).elim
    · intro n hn
      rcases List.mem_append.mp hn with hn | hn
      · exact hp.lexical n hn
      · obtain rfl := List.mem_singleton.mp hn
        intro w hmem
        change w ∈ p.mgr.workers at hmem
        rw [hboot.mgr] at hmem
        exact hlexical w hmem
    · intro other he
      cases he

theorem updateManager_obeys (hp : app.Policed host) (files : Files) (config : AppConfig)
    (hlexical : config.Lexical) (audit : AuditLogger) :
    Obeys host app (app.updateManager files config audit) := by
  refine ⟨⟨hp.rows, ?_, ?_, hp.pending, hp.calls, hp.dispatched⟩, fun _ => .of_same rfl rfl,
    List.Subset.refl _⟩
  · intro n hn
    rcases mem_putManager hn with rfl | hn
    · exact hp.copies app.current (List.mem_of_getElem? app.current_at)
    · exact hp.copies n hn
  · intro n hn
    rcases mem_putManager hn with rfl | hn
    · exact hlexical
    · exact hp.lexical n hn

theorem reloadConfig_obeys (hp : app.Policed host) {front : Front} {ctx : AuthContext}
    {files : Files} {loaded : Except PyExc AppConfig} {fault : Option Fault} {now : String}
    (hlexical : ∀ config, loaded = .ok config → config.Lexical) :
    Obeys host app (app.reloadConfig env front ctx files loaded fault now).1 := by
  have hreloads := reloadConfig_reloads env app front ctx files loaded fault now
  generalize app.reloadConfig env front ctx files loaded fault now = out at hreloads ⊢
  cases hreloads with
  | unloaded => exact .refl hp
  | unlogged config root => exact logged_obeys hp root
  | unaudited config root => exact logged_obeys hp root
  | refused config root => exact logged_obeys hp root
  | installs config root audit =>
    have hlog := logged_obeys hp root
    have hboth := hlog.trans (halting_obeys hlog.policed)
    exact hboth.trans (installManager_obeys hboth.policed _ (hlexical config rfl) _ _)
  | waits config root audit =>
    have hlog := logged_obeys hp root
    have hboth := hlog.trans (halting_obeys hlog.policed)
    refine hboth.trans (quiet_obeys hboth.policed _ _ _ _ _ rfl rfl (List.Subset.refl _)
      hp.calls ?_ hp.dispatched)
    intro pending hpending
    cases hpending
    exact hlexical config rfl
  | updates config root audit =>
    have hlog := logged_obeys hp root
    exact hlog.trans (updateManager_obeys hlog.policed files config (hlexical config rfl) audit)

theorem operate_obeys (hp : app.Policed env.host) {front : Front} {ctx : AuthContext}
    {operation : Operation} {inputs : Inputs} (hfresh : app.fresh inputs.taskId)
    (hlexical : ∀ config, inputs.loaded = .ok config → config.Lexical) :
    Obeys env.host app (app.operate env front ctx operation inputs).1 := by
  have hop := operate_operates env app front ctx operation inputs
  generalize (app.operate env front ctx operation inputs).1 = app' at hop ⊢
  cases hop with
  | same => exact .refl hp
  | calls workerId prompt mode key out hcalls =>
    cases hcalls with
    | refused response hout => exact hout ▸ .refl hp
    | sync workerId prompt key worker directory hworker hdirectory hcall =>
      exact callSync_obeys hp hworker hdirectory hcall
    | async request worker directory p response hworker hdirectory hcall hout =>
      exact hout ▸ accept_obeys hp hfresh hworker hdirectory hcall
  | cancels taskId =>
    have hr := (app.process app.current).cancel_revokes taskId inputs.now
    exact put_obeys hp app.current_at hr.settings.workers hr.sleeping
      (hr.all (hp.rows _) fun _ _ ht hc => ht.carried hc)
  | reloads => exact reloadConfig_obeys hp hlexical

theorem sentBy_backed (hp : app.Policed host) (hm : app.managers[k]? = some m)
    (hs : (app.process m).Stretch p) : ∀ d ∈ sentBy m (app.process m) p,
      Backed host app.site.admissions d.source d.workerId d.workingDirectory := by
  intro d hd
  obtain ⟨c, hc, rfl⟩ := List.mem_map.mp hd
  cases hs.emits with
  | nothing h =>
    rw [h, Nat.sub_self] at hc
    cases hc
  | @one t sent lifetime recoveryAttempt known carries h =>
    rw [h, List.length_cons, Nat.add_sub_cancel_left] at hc
    obtain rfl := List.mem_singleton.mp hc
    exact (known.all (hp.rows m.store.file)
      (hp.copies m (List.mem_of_getElem? hm))).carried carries

theorem step_obeys {event : AppEvent} {reply : Option Reply} (hg : app.Guarded)
    (hp : app.Policed env.host) (hlexical : event.Lexical)
    (h : app.step env event = some (app', reply)) : Obeys env.host app app' := by
  cases step_does h with
  | idle => exact .refl hp
  | operates request ctx inputs front operation _ _ hfresh =>
    refine operate_obeys hp hfresh fun config hload => ?_
    simp only [AppEvent.Lexical, hload] at hlexical
    exact hlexical
  | resumeSync j call m ticket hcall hm =>
    have hput : Obeys env.host app
        (app.putManager call.manager { m with syncLimit := m.syncLimit.resume ticket }) :=
      putManager_obeys hp hm rfl rfl
    exact hput.trans (sendSync_obeys hput.policed hcall)
  | endSync j outcome call m metrics reply hcall hm =>
    have hput : Obeys env.host app
        (app.putManager call.manager { m with syncLimit := m.syncLimit.release }) :=
      putManager_obeys hp hm rfl rfl
    refine hput.trans (quiet_obeys hput.policed _ _ _ _ _ rfl rfl (List.Subset.refl _) ?_
      hp.pending hp.dispatched)
    intro j' c hc
    rw [List.getElem?_set] at hc
    split at hc
    · next he =>
      subst he
      split at hc
      · cases hc
        exact hp.calls j call hcall
      · cases hc
    · exact hp.calls j' c hc
  | resumeReload fault now pending m gathered hpending hm =>
    have hput : Obeys env.host app (app.put pending.manager m (app.process m).stopped) :=
      put_obeys hp hm rfl (.of_handles rfl) (.of_same rfl rfl)
    exact hput.trans (installManager_obeys hput.policed pending (hp.pending pending hpending)
      fault now)
  | background k action m p hm hco hact =>
    have hmem := List.mem_of_getElem? hm
    have hs := Process.act_stretch (hg.held m hmem) hco hact
    have hput : Obeys env.host app (app.put k m p) :=
      put_obeys hp hm hs.settings.workers hs.sleeping
        (hs.all (hp.rows _) (hp.copies m hmem) fun _ _ ht hc => ht.carried hc)
    refine hput.trans (quiet_obeys hput.policed _ _ _ _ _ rfl rfl (List.Subset.refl _)
      hp.calls hp.pending ?_)
    intro d hd
    rcases List.mem_append.mp hd with hd | hd
    · exact sentBy_backed hp hm hs d hd
    · exact hp.dispatched d hd
  | shutdown m hm =>
    have hput : Obeys env.host app (app.put 0 m (app.process m).stop) :=
      put_obeys hp hm (Process.stop_settings _).workers (Process.stop_sleeps _) (by
        rw [Process.stop_world]
        exact .of_same rfl rfl)
    exact hput.trans (quiet_obeys hput.policed _ _ _ _ _ rfl rfl (List.Subset.refl _)
      hp.calls hp.pending hp.dispatched)
  | stopped m hm => exact put_obeys hp hm rfl (.of_handles rfl) (.of_same rfl rfl)

theorem installManager_admissions (pending : PendingReload) (fault : Option Fault) (now : String) :
    (app.installManager env pending fault now).1.site.admissions = app.site.admissions := by
  rcases installManager_cases env app pending fault now with ⟨w, exc, -, hout⟩ | ⟨p, -, hout⟩
  · rw [hout]
    rfl
  · rw [hout]
    rfl

theorem reloadConfig_admissions {front : Front} {ctx : AuthContext} {files : Files}
    {loaded : Except PyExc AppConfig} {fault : Option Fault} {now : String} :
    (app.reloadConfig env front ctx files loaded fault now).1.site.admissions =
      app.site.admissions := by
  have hreloads := reloadConfig_reloads env app front ctx files loaded fault now
  generalize app.reloadConfig env front ctx files loaded fault now = out at hreloads ⊢
  cases hreloads with
  | installs => exact installManager_admissions _ _ _
  | _ => rfl

/-- New admissions are by the settings that the current manager has for the worker. -/
def Admitting (app app' : App) : Prop :=
  ∃ new, app'.site.admissions = new ++ app.site.admissions ∧
    ∀ a ∈ new, app.current.core.worker a.worker.workerId = .ok a.worker

theorem Admitting.of_same (h : app'.site.admissions = app.site.admissions) :
    app.Admitting app' := ⟨[], h, nofun⟩

theorem Admitting.of_new {a : Admission} {workerId : String}
    (hworker : app.current.core.worker workerId = .ok a.worker)
    (h : app'.site.admissions = a :: app.site.admissions) : app.Admitting app' := by
  refine ⟨[a], h, fun b hb => ?_⟩
  obtain rfl := List.mem_singleton.mp hb
  exact (Manager.mem_of_worker hworker).2.symm ▸ hworker

theorem operate_admitting {front : Front} {ctx : AuthContext} {operation : Operation}
    {inputs : Inputs} : app.Admitting (app.operate env front ctx operation inputs).1 := by
  have hop := operate_operates env app front ctx operation inputs
  generalize (app.operate env front ctx operation inputs).1 = app' at hop ⊢
  cases hop with
  | same => exact .of_same rfl
  | calls workerId prompt mode key out hcalls =>
    cases hcalls with
    | refused response hout => exact .of_same (hout ▸ rfl)
    | sync workerId prompt key worker directory hworker _ hcall =>
      rcases callSync_ok hcall with ⟨-, rfl⟩ | ⟨-, rfl⟩
      · exact .of_new hworker rfl
      · exact .of_new hworker rfl
    | async request worker directory p response hworker _ _ hout =>
      subst hout
      unfold accept
      simp only
      split
      · exact .of_new hworker rfl
      · exact .of_same rfl
  -- Only a call is accepted or not.
  | cancels => exact .of_same rfl
  | reloads => exact .of_same reloadConfig_admissions

theorem step_admitting {event : AppEvent} {reply : Option Reply}
    (h : app.step env event = some (app', reply)) : app.Admitting app' := by
  cases step_does h with
  | operates => exact operate_admitting
  | resumeReload => exact .of_same (installManager_admissions _ _ _)
  | _ => exact .of_same rfl

end App

namespace Server

variable {env : Environment}

/-- The runs in which no configuration canonicalizes. -/
def Lexical : Server → ServerEvent → Prop
  | _, .start _ _ config _ => config.Lexical
  | _, .startCrash _ _ config _ _ => config.Lexical
  | _, .act event => event.Lexical
  | _, .actCrash event _ => event.Lexical
  | _, .crash => True

instance (s : Server) : DecidablePred (Lexical s)
  | .start _ _ config _ => inferInstanceAs (Decidable config.Lexical)
  | .startCrash _ _ config _ _ => inferInstanceAs (Decidable config.Lexical)
  | .act event => inferInstanceAs (Decidable event.Lexical)
  | .actCrash event _ => inferInstanceAs (Decidable event.Lexical)
  | .crash => isTrue trivial

def Policed (host : Host) : Server → Prop
  | down site => site.Policed host
  | up app => app.Policed host

theorem Policed.site {host : Host} {s : Server} (h : s.Policed host) : s.site.Policed host := by
  cases s with
  | down site => exact h
  | up app => exact ⟨h.rows, h.dispatched⟩

theorem created_policed {files : Files} {root : LoggingState} {site : Site} {config : AppConfig}
    {now : String} {app : App} (hs : site.Policed env.host) (hlexical : config.Lexical)
    (h : created env files root site config now = some app) :
    app.Policed env.host ∧ app.site.admissions = site.admissions ∧
      ∀ file, (site.disk file).Writes
        (Store.All (TaskRecord.Backed env.host site.admissions file)) (app.site.disk file) := by
  obtain ⟨root', audit, p, -, -, hstart, rfl⟩ := App.createApp_ok (created_eq_some.mp h)
  obtain ⟨w', ready, hm, hboot⟩ := startManager_ok hstart
  have hw := hs.rows.write (hboot.writes (hs.rows.marks hm))
  refine ⟨⟨hw.2, ?_, ?_, ?_, ?_, hs.dispatched⟩, rfl, hw.1⟩
  · -- No coroutine of a new manager sleeps.
    intro n hn
    obtain rfl := List.mem_singleton.mp hn
    exact fun i k t hat hph => (hboot.awake hat hph).elim
  · intro n hn w hmem
    obtain rfl := List.mem_singleton.mp hn
    change w ∈ p.mgr.workers at hmem
    rw [hboot.mgr] at hmem
    exact hlexical w hmem
  · intro other he
    cases he
  · intro i call hc
    cases hc

theorem crashed_policed {host : Host} {site site' : Site} (hs : site.Policed host)
    (hle : site.admissions ⊆ site'.admissions)
    (hw : ∀ file, (site.disk file).Writes
      (Store.All (TaskRecord.Backed host site'.admissions file)) (site'.disk file))
    (lost : Text → ℕ) : (site.crashed site' lost).Policed host := by
  refine ⟨fun file => ?_, fun d hd => (hs.dispatched d hd).mono hle⟩
  have hold : (site.disk file).store.All (TaskRecord.Backed host site'.admissions file) :=
    fun id r hr => (hs.rows file id r hr).mono hle
  show ((((site.disk file).crashed (site'.disk file) (lost file)).getD
    (site.disk file)).store).All (TaskRecord.Backed host site'.admissions file)
  cases hc : (site.disk file).crashed (site'.disk file) (lost file) with
  | none => exact hold
  | some w =>
    rcases (hw file).crashed hc with he | hall
    · show w.store.All _
      exact he.symm ▸ hold
    · exact hall

theorem policed_of_reachable {s : Server}
    (h : (machine env fun _ => World.empty).Reachable Lexical s) : s.Policed env.host := by
  refine h.invariant' ?_ ?_
  · refine ⟨fun file id r hr => ?_, nofun⟩
    have hnone : World.empty.store.get id = none := rfl
    rw [hnone] at hr
    cases hr
  · intro s e s' hreach hok hi hstep
    cases step_steps hstep with
    | started site files root config now app happ => exact (created_policed hi hok happ).1
    | startCrashed site files root config now lost app happ =>
      obtain ⟨-, hadmissions, hw⟩ := created_policed hi hok happ
      refine crashed_policed hi ?_ ?_ lost
      · rw [hadmissions]
        exact List.Subset.refl _
      · rw [hadmissions]
        exact hw
    | acted app event app' reply happ =>
      exact (App.step_obeys (guards_of_reachable hreach.any) hi hok happ).policed
    | actCrashed app event lost app' reply happ =>
      have hobeys := App.step_obeys (guards_of_reachable hreach.any) hi hok happ
      exact crashed_policed ⟨hi.rows, hi.dispatched⟩ hobeys.admissions hobeys.writes lost
    | crashed app => exact ⟨hi.rows, hi.dispatched⟩

/-- Every call of a worker is for a request that was accepted, in a directory that the settings
then in force for the worker allow: those that the current manager had when it was accepted. -/
theorem dispatch_obeys_accepted_policy {s : Server}
    (h : (machine env fun _ => World.empty).Reachable Lexical s) :
    (∀ d ∈ s.site.dispatched,
      Backed env.host s.site.admissions d.source d.workerId d.workingDirectory) ∧
    ∀ app event app' reply, s = up app → app.step env event = some (app', reply) →
      app.Admitting app' := by
  refine ⟨(policed_of_reachable h).site.dispatched, ?_⟩
  intro app event app' reply _ hstep
  exact App.step_admitting hstep

/-- A configuration that allows the worker another directory. -/
def withdrawn : AppConfig :=
  { Sample.appConfig "/a".toList with
    workers := Sample.workers.map fun w =>
      { w with filesystem := ⟨[], ["/other".toList], false⟩ }
    workerIds_unique := by decide }

/-- A task that is sent. -/
theorem dispatch_obeys_accepted_policy_task :
    ∃ (d : Dispatched) (a : Admission), d.source = .task "/a".toList "a" ∧
      d.workingDirectory = some a.workingDirectory ∧
      pathIsAllowed Sample.host a.workingDirectory a.worker.filesystem.write false = .ok true := by
  obtain ⟨s, hs, hp⟩ := Runs.Machine.exists_reachable_of_run
    (machine Sample.environment fun _ => World.empty) Lexical
    [Sample.start (Sample.appConfig "/a".toList), .act (Sample.submit Sample.operator "a"),
      .act (.background 0 (.resume 0 "x" "t2"))]
    (fun s => s.site.dispatched.any fun d => decide (d.source = .task "/a".toList "a")) (by decide)
  obtain ⟨d, hd, hsource⟩ := List.any_eq_true.mp hp
  obtain ⟨a, -, -, -, hdirectory, hallowed⟩ := (dispatch_obeys_accepted_policy hs).1 d hd
  exact ⟨d, a, of_decide_eq_true hsource, hdirectory, hallowed⟩

/-- A directory that was withdrawn while its task was pending is sent all the same. -/
theorem withdrawn_directory_sent : ¬ ∀ s,
    (machine Sample.environment fun _ => World.empty).Reachable Lexical s →
      ∀ d ∈ s.site.dispatched, ∀ w directory, d.performer = some w →
        d.workingDirectory = some directory →
          pathIsAllowed Sample.host directory w.filesystem.write false = .ok true := by
  intro hall
  obtain ⟨s, hs, hp⟩ := Runs.Machine.exists_reachable_of_run
    (machine Sample.environment fun _ => World.empty) Lexical
    [Sample.start (Sample.appConfig "/a".toList), .act (Sample.submit Sample.operator "a"),
      .act (Sample.reload Sample.operator withdrawn),
      .act (.background 0 (.resume 0 "x" "t2"))]
    (fun s => s.site.dispatched.any fun d => d.performer.any fun w =>
      d.workingDirectory.any fun directory =>
        decide (pathIsAllowed Sample.host directory w.filesystem.write false ≠ .ok true))
    (by decide)
  -- Sent by a registry that no longer allows its directory.
  obtain ⟨d, hd, hsent⟩ := List.any_eq_true.mp hp
  obtain ⟨w, hw, hsent⟩ := (Option.any_eq_true _ _).mp hsent
  obtain ⟨directory, hdirectory, hsent⟩ := (Option.any_eq_true _ _).mp hsent
  exact of_decide_eq_true hsent (hall s hs d hd w directory hw hdirectory)

end Server

end WorkerBridge
