import WorkerBridge.Effects
import WorkerBridge.Requests

namespace WorkerBridge

open TaskState

variable {may : Scope → Prop}

/-- How the rows of a database change in a step with the scopes `may`. -/
structure Store.Edit (may : Scope → Prop) (s s' : Store) (id : String) : Prop where
  inserted : s.get id = none → may .submit
  kept : ∀ r, s.get id = some r → ∃ r', s'.get id = some r' ∧ r'.workerId = r.workerId ∧
    r'.idempotencyKey = r.idempotencyKey
  revoked : ∀ r', s'.get id = some r' → r'.state = cancelled →
    r'.error = some "cancelled by caller".toList → may .cancel

def Store.Edited (may : Scope → Prop) (s s' : Store) : Prop :=
  ∀ id, s'.get id = s.get id ∨ s.Edit may s' id

namespace Store.Edited

variable {s s' s'' : Store}

theorem refl (s : Store) : s.Edited may s := fun _ => Or.inl rfl

theorem trans (h : s.Edited may s') (h' : s'.Edited may s'') : s.Edited may s'' := by
  intro id
  rcases h id with he | hed
  · rcases h' id with he' | hed'
    · exact Or.inl (he'.trans he)
    · exact Or.inr ⟨he ▸ hed'.inserted, he ▸ hed'.kept, hed'.revoked⟩
  · rcases h' id with he' | hed'
    · exact Or.inr ⟨hed.inserted, he'.symm ▸ hed.kept, he'.symm ▸ hed.revoked⟩
    · refine Or.inr ⟨hed.inserted, fun r hr => ?_, hed'.revoked⟩
      obtain ⟨r', hr', hworker, hkey⟩ := hed.kept r hr
      obtain ⟨r'', hr'', hworker', hkey'⟩ := hed'.kept r' hr'
      exact ⟨r'', hr'', hworker'.trans hworker, hkey'.trans hkey⟩

theorem kept (h : s.Edited may s') {id : String} {r : TaskRecord} (hr : s.get id = some r) :
    ∃ r', s'.get id = some r' ∧ r'.workerId = r.workerId ∧
      r'.idempotencyKey = r.idempotencyKey := by
  rcases h id with he | hed
  · exact ⟨r, he.trans hr, rfl, rfl⟩
  · exact hed.kept r hr

end Store.Edited

theorem Store.Edit.of_row {s s' : Store} {id : String} {r r' : TaskRecord}
    (hr : s.get id = some r) (hr' : s'.get id = some r') (hworker : r'.workerId = r.workerId)
    (hkey : r'.idempotencyKey = r.idempotencyKey)
    (hc : r'.state = cancelled → r'.error = some "cancelled by caller".toList → may .cancel) :
    s.Edit may s' id := by
  refine ⟨fun hnone => ?_, fun t ht => ?_, fun t ht => ?_⟩
  · rw [hr] at hnone
    cases hnone
  · obtain rfl : r = t := Option.some.inj (hr.symm.trans ht)
    exact ⟨r', hr', hworker, hkey⟩
  · obtain rfl : r' = t := Option.some.inj (hr'.symm.trans ht)
    exact hc

theorem World.MarksMany.edited {w w' : World} (h : w.MarksMany w') :
    w.store.Edited may w'.store := by
  induction h with
  | refl => exact .refl _
  | tail _ hm ih =>
    refine ih.trans fun id => ?_
    rcases hm.row id with he | ⟨r, r', hr, hr', -, -, hs, hkey, hworker⟩
    · exact Or.inl he
    · refine Or.inr (.of_row hr hr' hworker hkey fun hc => ?_)
      rw [hs] at hc
      cases hc

namespace Process

variable {p p' : Process} {host : Host} {taskId : String}

theorem Stretch.edited (h : p.Stretch p') : p.store.Edited may p'.store := by
  rcases h.writes.store with he | hw
  · exact fun id => Or.inl (congrArg (fun s : Store => s.get id) he)
  · intro id
    rcases hw id with he | ⟨r, r', hr, hr', hrw⟩
    · exact Or.inl he
    · refine Or.inr (.of_row hr hr' hrw.workerId hrw.key fun hc herr => ?_)
      rw [hrw.cancelled hc] at herr
      exact absurd herr (by decide)

theorem Admits.edited {request : CallRequest} (h : p.Admits host request taskId p')
    (hfresh : p.row taskId = none) (hmay : may .submit) : p.store.Edited may p'.store := by
  rcases h.rows with ⟨he, -⟩ | hins
  · exact fun id => Or.inl (congrArg (fun s : Store => s.get id) he)
  · obtain ⟨worker, directory, timeoutSeconds, now, -, -, hset⟩ := hins.row
    intro id
    by_cases hid : id = taskId
    · subst hid
      refine Or.inr ⟨fun _ => hmay, fun r hr => ?_, fun r' hr' hs => ?_⟩
      · rw [show p.store.get id = none from hfresh] at hr
        cases hr
      · rw [show p'.store.get id = some _ from hset.self] at hr'
        cases hr'
        cases hs
    · exact Or.inl (hset.other hid)

theorem Revokes.edited (h : p.Revokes taskId p') (hmay : may .cancel) :
    p.store.Edited may p'.store := by
  rcases h.writes.store with he | ⟨t, r, ht, hset, hc⟩
  · exact fun id => Or.inl (congrArg (fun s : Store => s.get id) he)
  · intro id
    by_cases hid : id = taskId
    · subst hid
      exact Or.inr (.of_row ht hset.self hc.workerId hc.key fun _ _ => hmay)
    · exact Or.inl (hset.other hid)

theorem Held.of_sleeps (hh : p.Held) (hs : p.Sleeps p'.mgr)
    (he : p.store.Edited may p'.store) : p'.Held := by
  intro i k t hat hph
  have hrow : t.state = recovering ∧ ∃ r, p.row t.taskId = some r ∧ r.workerId = t.workerId ∧
      r.idempotencyKey = t.idempotencyKey := by
    rcases hs i k t hat hph with ⟨hrec, hrow⟩ | ⟨k', hat', hph'⟩
    · exact ⟨hrec, t, hrow, rfl, rfl⟩
    · exact hh i k' t hat' hph'
  obtain ⟨hrec, r, hr, hworker, hkey⟩ := hrow
  obtain ⟨r', hr', hworker', hkey'⟩ := he.kept hr
  exact ⟨hrec, r', hr', hworker'.trans hworker, hkey'.trans hkey⟩

end Process

theorem startManager_ok {w : World} {config : AppConfig} {fault : Option Fault} {now : String}
    {p : Process} (h : startManager w config fault now = .ok p) :
    ∃ w' ready, w.MarksMany w' ∧
      Booted w' ⟨config.workers, config.recovery, config.limits⟩ ready p := by
  have hs : Bridge.started w ⟨config.workers, config.recovery, config.limits⟩ now = some p := by
    unfold startManager at h
    unfold Bridge.started
    split at h
    · cases h
    · split at h <;> cases h
    · next hp =>
      cases h
      rw [hp]
    · cases h
  exact started_booted hs

theorem startManager_error {w w' : World} {config : AppConfig} {fault : Option Fault}
    {now : String} {exc : PyExc} (h : startManager w config fault now = .error (w', exc)) :
    w.MarksMany w' := by
  unfold startManager at h
  split at h
  · cases h
    exact .refl
  · next exc' lost p hp =>
    split at h
    · next w'' hc =>
      cases h
      have hs : startManager w config none now = .ok p := by
        unfold startManager
        rw [hp]
      obtain ⟨v, ready, hmarks, hboot⟩ := startManager_ok hs
      rw [hboot.world] at hc
      exact World.crashed_marks hmarks hc
    · cases h
      exact .refl
  · cases h
  · cases h
    exact .refl

theorem Booted.awake {w : World} {settings : Settings} {ready : List TaskRecord} {p : Process}
    (hb : Booted w settings ready p) {i : ℕ} {k : Handle} {t : TaskRecord}
    (hat : p.mgr.handles[i]? = some k) (hph : k.phase = .sleeping t) : False := by
  rw [hb.mgr] at hat
  change (ready.map _)[i]? = some k at hat
  rw [List.getElem?_map] at hat
  obtain ⟨r, -, rfl⟩ := Option.map_eq_some_iff.mp hat
  cases hph

/-- The settings of a manager, and what it was built with. -/
structure TaskManager.SameSettings (m m' : TaskManager) : Prop where
  core : m.core.SameSettings m'.core
  store : m'.store = m.store
  workers : m'.workers = m.workers
  audit : m'.audit = m.audit

theorem TaskManager.SameSettings.refl (m : TaskManager) : m.SameSettings m :=
  ⟨⟨rfl, rfl, rfl⟩, rfl, rfl, rfl⟩

namespace App

variable {env : Environment} {app app' app'' : App} {k : ℕ} {m m' : TaskManager} {p : Process}

structure SameSettings (app app' : App) : Prop where
  config : app'.config = app.config
  store : app'.store = app.store
  workers : app'.workers = app.workers
  manager : app'.manager = app.manager
  audit : app'.audit = app.audit
  logging : app'.logging = app.logging
  registries : app'.registries = app.registries
  buckets : app'.buckets = app.buckets
  latest : app'.latest = app.latest
  earlier : app'.earlier = app.earlier
  managers_length : app'.managers.length = app.managers.length
  managers : ∀ (k : ℕ) (m : TaskManager), app.managers[k]? = some m →
    ∃ m', app'.managers[k]? = some m' ∧ m.SameSettings m'

theorem SameSettings.refl (app : App) : app.SameSettings app :=
  ⟨rfl, rfl, rfl, rfl, rfl, rfl, rfl, rfl, rfl, rfl, rfl, fun _ m h => ⟨m, h, .refl m⟩⟩

theorem SameSettings.trans (h : app.SameSettings app') (h' : app'.SameSettings app'') :
    app.SameSettings app'' where
  config := h'.config.trans h.config
  store := h'.store.trans h.store
  workers := h'.workers.trans h.workers
  manager := h'.manager.trans h.manager
  audit := h'.audit.trans h.audit
  logging := h'.logging.trans h.logging
  registries := h'.registries.trans h.registries
  buckets := h'.buckets.trans h.buckets
  latest := h'.latest.trans h.latest
  earlier := h'.earlier.trans h.earlier
  managers_length := h'.managers_length.trans h.managers_length
  managers := by
    intro k m hm
    obtain ⟨m', hm', hs⟩ := h.managers k m hm
    obtain ⟨m'', hm'', hs'⟩ := h'.managers k m' hm'
    refine ⟨m'', hm'', ⟨?_, ?_, ?_⟩, hs'.store.trans hs.store, hs'.workers.trans hs.workers,
      hs'.audit.trans hs.audit⟩
    · exact hs'.core.workers.trans hs.core.workers
    · exact hs'.core.recovery.trans hs.core.recovery
    · exact hs'.core.limits.trans hs.core.limits

theorem SameSettings.putManager (hm : app.managers[k]? = some m) (hs : m.SameSettings m') :
    app.SameSettings (app.putManager k m') := by
  refine ⟨rfl, rfl, rfl, rfl, rfl, rfl, rfl, rfl, rfl, rfl, by simp [App.putManager], ?_⟩
  intro j n hn
  by_cases hj : k = j
  · subst hj
    obtain rfl : m = n := Option.some.inj (hm.symm.trans hn)
    obtain ⟨hlt, -⟩ := List.getElem?_eq_some_iff.mp hm
    exact ⟨m', List.getElem?_set_self hlt, hs⟩
  · exact ⟨n, (List.getElem?_set_ne hj).trans hn, .refl n⟩

/-- The copies that coroutines sleep on have their rows. -/
def Held (app : App) : Prop := ∀ m ∈ app.managers, (app.process m).Held

/-- Whether a call of a worker belongs to a synchronous call. -/
def Source.isSync : Source → Bool
  | .sync .. => true
  | .task .. => false

/-- What a step with the scopes `may` can change. -/
structure Within (may : Scope → Prop) (app app' : App) : Prop where
  rows : ∀ file, (app.site.disk file).store.Edited may (app'.site.disk file).store
  dispatched : ∃ new, app'.site.dispatched = new ++ app.site.dispatched ∧
    ∀ d ∈ new, Source.isSync d.source = true → may .submit
  settings : may .admin ∨ app.SameSettings app'
  held : app.Held → app'.Held
  calls : ∀ call ∈ app'.syncCalls, Scope.submit ∈ call.context.scopes ∨
    ∃ call' ∈ app.syncCalls, call'.context = call.context
  reloading : ∀ pending, app'.reloading = some pending → Scope.admin ∈ pending.context.scopes ∨
    app.reloading = some pending

theorem Within.refl (app : App) : Within may app app where
  rows _ := .refl _
  dispatched := ⟨[], rfl, List.forall_mem_nil _⟩
  settings := Or.inr (.refl app)
  held h := h
  calls call h := Or.inr ⟨call, h, rfl⟩
  reloading _ h := Or.inr h

theorem Within.trans (h : Within may app app') (h' : Within may app' app'') :
    Within may app app'' where
  rows file := (h.rows file).trans (h'.rows file)
  dispatched := by
    obtain ⟨new, hnew, hmay⟩ := h.dispatched
    obtain ⟨new', hnew', hmay'⟩ := h'.dispatched
    refine ⟨new' ++ new, by rw [hnew', hnew, List.append_assoc], ?_⟩
    intro d hd
    rcases List.mem_append.mp hd with hd | hd
    · exact hmay' d hd
    · exact hmay d hd
  settings := by
    rcases h.settings with hadmin | hs
    · exact Or.inl hadmin
    · exact h'.settings.imp id hs.trans
  held hh := h'.held (h.held hh)
  calls := by
    intro call hc
    rcases h'.calls call hc with hs | ⟨call', hc', he⟩
    · exact Or.inl hs
    · rcases h.calls call' hc' with hs | ⟨call'', hc'', he'⟩
      · exact Or.inl (he ▸ hs)
      · exact Or.inr ⟨call'', hc'', he'.trans he⟩
  reloading := by
    intro pending hp
    rcases h'.reloading pending hp with hs | hp'
    · exact Or.inl hs
    · exact h.reloading pending hp'

theorem quiet_within {app : App} (metrics : MetricsRegistry) (syncCalls : List SyncCall)
    (reloading : Option PendingReload) (closing : Bool) (site : Site)
    (hdisk : site.disk = app.site.disk)
    (hdispatched : ∃ new, site.dispatched = new ++ app.site.dispatched ∧
      ∀ d ∈ new, Source.isSync d.source = true → may .submit)
    (hcalls : ∀ call ∈ syncCalls, Scope.submit ∈ call.context.scopes ∨
      ∃ call' ∈ app.syncCalls, call'.context = call.context)
    (hreloading : ∀ pending, reloading = some pending → Scope.admin ∈ pending.context.scopes ∨
      app.reloading = some pending) :
    Within may app { app with
      metrics := metrics
      syncCalls := syncCalls
      reloading := reloading
      closing := closing
      site := site } := by
  have hrows : ∀ file, (app.site.disk file).store.Edited may (site.disk file).store := by
    intro file
    rw [hdisk]
    exact .refl _
  refine ⟨hrows, hdispatched, Or.inr ?_, ?_, hcalls, hreloading⟩
  · exact ⟨rfl, rfl, rfl, rfl, rfl, rfl, rfl, rfl, rfl, rfl, rfl, fun _ m h => ⟨m, h, .refl m⟩⟩
  · intro hh m hm
    exact (hh m hm).of_sleeps (.of_handles rfl) (hrows m.store.file)

theorem mem_putManager {n : TaskManager} (h : n ∈ (app.putManager k m').managers) :
    n = m' ∨ n ∈ app.managers :=
  (List.mem_or_eq_of_mem_set h).symm

theorem disk_put (file : Text) : ((app.put k m p).site.disk file) =
    if file = m.store.file then p.world else app.site.disk file := by
  show Function.update app.site.disk m.store.file p.world file = _
  rw [Function.update_apply]

theorem put_within (hm : app.managers[k]? = some m)
    (hset : may .admin ∨ m.core.SameSettings p.mgr) (hsleep : (app.process m).Sleeps p.mgr)
    (hed : (app.site.disk m.store.file).store.Edited may p.world.store) :
    Within may app (app.put k m p) := by
  have hrows : ∀ file, (app.site.disk file).store.Edited may
      ((app.put k m p).site.disk file).store := by
    intro file
    rw [disk_put]
    split
    · next hf => exact hf ▸ hed
    · exact .refl _
  refine ⟨hrows, ⟨[], rfl, List.forall_mem_nil _⟩, ?_, ?_, fun call h => Or.inr ⟨call, h, rfl⟩,
    fun _ h => Or.inr h⟩
  · refine hset.imp id fun hs => ?_
    have hput : app.SameSettings (app.putManager k { m with core := p.mgr }) :=
      .putManager hm ⟨hs, rfl, rfl, rfl⟩
    exact ⟨hput.config, hput.store, hput.workers, hput.manager, hput.audit, hput.logging,
      hput.registries, hput.buckets, hput.latest, hput.earlier, hput.managers_length,
      hput.managers⟩
  · intro hh n hn
    rcases mem_putManager hn with rfl | hn
    · exact (hh m (List.mem_of_getElem? hm)).of_sleeps hsleep (hrows m.store.file)
    · exact (hh n hn).of_sleeps (.of_handles rfl) (hrows n.store.file)

theorem putManager_within (hm : app.managers[k]? = some m) (hs : m.SameSettings m')
    (hcore : m'.core = m.core) : Within may app (app.putManager k m') := by
  refine ⟨fun _ => .refl _, ⟨[], rfl, List.forall_mem_nil _⟩, Or.inr (.putManager hm hs), ?_,
    fun call h => Or.inr ⟨call, h, rfl⟩, fun _ h => Or.inr h⟩
  intro hh n hn
  rcases mem_putManager hn with rfl | hn
  · have hheld := hh m (List.mem_of_getElem? hm)
    have hstore : (app.site.disk m.store.file).store.Edited may
        (app.site.disk n.store.file).store := by
      rw [hs.store]
      exact .refl _
    refine hheld.of_sleeps (.of_handles ?_) hstore
    show n.core.handles = m.core.handles
    rw [hcore]
  · exact hh n hn

theorem logged_within (hadmin : may .admin) (app : App) (root : LoggingState) :
    Within may app (app.logged root) where
  rows _ := .refl _
  dispatched := ⟨[], rfl, List.forall_mem_nil _⟩
  settings := Or.inl hadmin
  held h := h
  calls call h := Or.inr ⟨call, h, rfl⟩
  reloading _ h := Or.inr h

theorem halting_within (hadmin : may .admin) (app : App) : Within may app app.halting := by
  refine put_within app.current_at (Or.inl hadmin) (Process.stop_sleeps _) ?_
  rw [Process.stop_world]
  exact .refl _

theorem installManager_within (hadmin : may .admin) (pending : PendingReload)
    (fault : Option Fault) (now : String) :
    Within may app (app.installManager env pending fault now).1 := by
  have hwrite : ∀ {file f : Text} {w : World}, (app.site.disk file).store.Edited may w.store →
      (app.site.disk f).store.Edited may ((app.site.write file w).disk f).store := by
    intro file f w hw
    show Store.Edited may _ (Function.update app.site.disk file w f).store
    rw [Function.update_apply]
    split
    · next hf => exact hf ▸ hw
    · exact .refl _
  rcases installManager_cases env app pending fault now with ⟨w, exc, hs, hout⟩ | ⟨p, hs, hout⟩
  · rw [hout]
    have hrows : ∀ f, (app.site.disk f).store.Edited may
        ((app.site.write (openStore env pending.config.sqlitePath).file w).disk f).store :=
      fun f => hwrite (startManager_error hs).edited
    refine ⟨hrows, ⟨[], rfl, List.forall_mem_nil _⟩, Or.inl hadmin, ?_,
      fun call h => Or.inr ⟨call, h, rfl⟩, ?_⟩
    · intro hh n hn
      exact (hh n hn).of_sleeps (.of_handles rfl) (hrows n.store.file)
    · intro other he
      cases he
  · rw [hout]
    obtain ⟨w', ready, hmarks, hboot⟩ := startManager_ok hs
    have hed : (app.site.disk (openStore env pending.config.sqlitePath).file).store.Edited may
        p.world.store := by
      rw [hboot.world]
      exact hmarks.edited
    have hrows : ∀ f, (app.site.disk f).store.Edited may
        ((app.site.write (openStore env pending.config.sqlitePath).file p.world).disk f).store :=
      fun f => hwrite hed
    refine ⟨hrows, ⟨[], rfl, List.forall_mem_nil _⟩, Or.inl hadmin, ?_,
      fun call h => Or.inr ⟨call, h, rfl⟩, ?_⟩
    · intro hh n hn
      rcases List.mem_append.mp hn with hn | hn
      · exact (hh n hn).of_sleeps (.of_handles rfl) (hrows n.store.file)
      · obtain rfl := List.mem_singleton.mp hn
        exact fun i k t hat hph => (hboot.awake hat hph).elim
    · intro other he
      cases he

theorem updateManager_within (hadmin : may .admin) (files : Files) (config : AppConfig)
    (audit : AuditLogger) : Within may app (app.updateManager files config audit) := by
  refine ⟨fun _ => .refl _, ⟨[], rfl, List.forall_mem_nil _⟩, Or.inl hadmin, ?_,
    fun call h => Or.inr ⟨call, h, rfl⟩, fun _ h => Or.inr h⟩
  intro hh n hn
  rcases mem_putManager hn with rfl | hn
  · have hsame : (app.process app.current).store.Edited may (app.process app.current).store :=
      .refl _
    exact (hh app.current (List.mem_of_getElem? app.current_at)).of_sleeps (.of_handles rfl) hsame
  · exact hh n hn

theorem reloadConfig_within (hadmin : may .admin) {front : Front} {ctx : AuthContext}
    (hctx : Scope.admin ∈ ctx.scopes) {files : Files} {loaded : Except PyExc AppConfig}
    {fault : Option Fault} {now : String} :
    Within may app (app.reloadConfig env front ctx files loaded fault now).1 := by
  have hreloads := reloadConfig_reloads env app front ctx files loaded fault now
  generalize app.reloadConfig env front ctx files loaded fault now = out at hreloads ⊢
  cases hreloads with
  | unloaded => exact .refl app
  | unlogged config root => exact logged_within hadmin app root
  | unaudited config root => exact logged_within hadmin app root
  | refused config root => exact logged_within hadmin app root
  | installs config root audit =>
    have hhalting := (logged_within hadmin app root).trans (halting_within hadmin _)
    exact hhalting.trans (installManager_within hadmin _ _ _)
  | waits config root audit =>
    -- The reload that is left waiting carries the context it was asked with.
    refine ((logged_within hadmin app root).trans (halting_within hadmin _)).trans ?_
    refine ⟨fun _ => .refl _, ⟨[], rfl, List.forall_mem_nil _⟩, Or.inl hadmin, id,
      fun call h => Or.inr ⟨call, h, rfl⟩, ?_⟩
    intro pending hp
    cases hp
    exact Or.inl hctx
  | updates config root audit =>
    exact (logged_within hadmin app root).trans (updateManager_within hadmin files config audit)

theorem sendSync_within (hsubmit : may .submit) {j : ℕ} {call : SyncCall}
    (hcall : Scope.submit ∈ call.context.scopes) : Within may app (app.sendSync j call) := by
  refine quiet_within _ _ _ _ _ rfl ⟨[_], rfl, fun _ _ _ => hsubmit⟩ ?_ fun _ h => Or.inr h
  intro c hc
  rcases List.mem_or_eq_of_mem_set hc with hc | rfl
  · exact Or.inr ⟨c, hc, rfl⟩
  · exact Or.inl hcall

theorem admissions_within (app : App) (admissions : List Admission) :
    Within may app { app with site := { app.site with admissions := admissions } } :=
  quiet_within _ _ _ _ _ rfl ⟨[], rfl, List.forall_mem_nil _⟩ (fun call h => Or.inr ⟨call, h, rfl⟩)
    fun _ h => Or.inr h

theorem withSync_within {limit : FifoSemaphore} {call : SyncCall}
    (hcall : Scope.submit ∈ call.context.scopes) : Within may app (app.withSync limit call) := by
  have hput : Within may app
      (app.putManager app.manager { app.current with syncLimit := limit }) :=
    putManager_within app.current_at ⟨⟨rfl, rfl, rfl⟩, rfl, rfl, rfl⟩ rfl
  refine hput.trans (quiet_within _ _ _ _ _ rfl ⟨[], rfl, List.forall_mem_nil _⟩ ?_
    fun _ h => Or.inr h)
  intro c hc
  rcases List.mem_append.mp hc with hc | hc
  · exact Or.inr ⟨c, hc, rfl⟩
  · exact Or.inl (List.mem_singleton.mp hc ▸ hcall)

theorem callSync_within (hsubmit : may .submit) {front : Front} {ctx : AuthContext}
    (hctx : Scope.submit ∈ ctx.scopes) {worker : WorkerConfig} {workerId : String} {prompt : Text}
    {key : Json} {workingDirectory : Text} {active : ℕ} {out : App × Option ToolResult}
    (h : app.callSync front ctx worker workerId prompt key workingDirectory active = .ok out) :
    Within may app out.1 := by
  rcases callSync_ok h with ⟨-, rfl⟩ | ⟨-, rfl⟩
  · exact (admissions_within app _).trans (withSync_within hctx)
  · exact (admissions_within app _).trans
      ((withSync_within hctx).trans (sendSync_within hsubmit hctx))

theorem accept_within (hsubmit : may .submit) {host : Host} {request : CallRequest}
    {taskId : String} {worker : WorkerConfig} {workingDirectory : Text}
    (hfresh : app.fresh taskId) (h : (app.process app.current).Admits host request taskId p) :
    Within may app (app.accept p taskId worker workingDirectory) := by
  have hput : Within may app (app.put app.manager app.current p) :=
    put_within app.current_at (Or.inr ⟨h.settings.workers, h.settings.recovery, h.settings.limits⟩)
      h.sleeping (h.edited hfresh hsubmit)
  unfold accept
  simp only
  split
  · exact hput.trans (admissions_within _ _)
  · exact hput

theorem calls_within (hsubmit : may .submit) {front : Front} {ctx : AuthContext}
    (hctx : Scope.submit ∈ ctx.scopes) {inputs : Inputs} (hfresh : app.fresh inputs.taskId)
    {out : App × Option ToolResult} (h : Calls env app front ctx inputs out) :
    Within may app out.1 := by
  cases h with
  | refused response hout => exact hout ▸ .refl app
  | sync workerId prompt key worker directory _ _ hcall => exact callSync_within hsubmit hctx hcall
  | async request worker directory p response _ _ hcall hout =>
    exact hout ▸ accept_within hsubmit hfresh (Process.call_admits hfresh hcall)

theorem operate_within {front : Front} {ctx : AuthContext} {operation : Operation}
    {inputs : Inputs} (hmay : may operation.scope) (hscope : operation.scope ∈ ctx.scopes)
    (hfresh : app.fresh inputs.taskId) :
    Within may app (app.operate env front ctx operation inputs).1 := by
  have hop := operate_operates env app front ctx operation inputs
  generalize (app.operate env front ctx operation inputs).1 = app' at hop ⊢
  cases hop with
  | same => exact .refl app
  | calls workerId prompt mode key out hcalls => exact calls_within hmay hscope hfresh hcalls
  | cancels taskId =>
    have hr := (app.process app.current).cancel_revokes taskId inputs.now
    exact put_within app.current_at
      (Or.inr ⟨hr.settings.workers, hr.settings.recovery, hr.settings.limits⟩) hr.sleeping
      (hr.edited hmay)
  | reloads => exact reloadConfig_within hmay hscope

theorem callManager_checked {front : Front} {ctx : AuthContext} {workerId prompt mode key : Json}
    {inputs : Inputs} {answer : ToolResult}
    (h : app.callManager env front ctx workerId prompt mode key inputs = .ok (app', some answer)) :
    (Reply.answered front (.ok answer)).checked = none := by
  cases callManager_calls h with
  | refused response hout =>
    cases hout
    rfl
  | sync workerId prompt key worker directory _ _ hcall =>
    rcases callSync_ok hcall with ⟨-, he⟩ | ⟨-, he⟩ <;> cases he
  | async request worker directory p response _ _ hcall hout =>
    cases hout
    rfl

theorem operate_checked {front : Front} {ctx : AuthContext} {operation : Operation}
    {inputs : Inputs}
    (h : (app.operate env front ctx operation inputs).2.checked ≠ none) :
    operation.scope = .read := by
  cases operation with
  | call workerId prompt mode key =>
    unfold operate at h
    simp only at h
    split at h
    · next failure _ =>
      exact absurd (callFailure_checked front failure) h
    · exact absurd rfl h
    · next answer hcall =>
      exact absurd (callManager_checked hcall) h
  | check taskId => rfl
  | cancel taskId => cases taskId <;> exact absurd rfl h
  | list => rfl
  | reload =>
    unfold operate at h
    simp only at h
    split at h
    · exact absurd rfl h
    · exact absurd (reloadReply_checked front _) h

end App

/-- The context of the request that a step belongs to. -/
def AppEvent.context (app : App) : AppEvent → Option AuthContext
  | request _ ctx _ => some ctx
  | resumeSync j => app.syncCalls[j]?.map SyncCall.context
  | endSync j _ => app.syncCalls[j]?.map SyncCall.context
  | resumeReload .. => app.reloading.map PendingReload.context
  | background .. => none
  | shutdown => none
  | stopped => none

def AppEvent.Holds (app : App) (event : AppEvent) (scope : Scope) : Prop :=
  ∃ ctx, event.context app = some ctx ∧ scope ∈ ctx.scopes

namespace App

variable {env : Environment} {app app' : App}

/-- A step changes what the scopes of its context allow. -/
structure Enforces (app : App) (event : AppEvent) (app' : App) (reply : Option Reply) : Prop where
  inserted : ∀ file id, (app.site.disk file).store.get id = none →
    (app'.site.disk file).store.get id ≠ none → event.Holds app .submit
  calledSync : ∃ new, app'.site.dispatched = new ++ app.site.dispatched ∧
    ∀ d ∈ new, Source.isSync d.source = true → event.Holds app .submit
  revoked : ∀ file id r, (app'.site.disk file).store.get id = some r → r.state = cancelled →
    r.error = some "cancelled by caller".toList →
    (app.site.disk file).store.get id = some r ∨ event.Holds app .cancel
  replaced : app.SameSettings app' ∨ event.Holds app .admin
  checked : ∀ front response, reply = some (.answered front (.ok (.check response))) →
    event.Holds app .read

/-- What has been let in had the scope it needs. -/
structure Guarded (app : App) : Prop where
  held : app.Held
  calls : ∀ call ∈ app.syncCalls, Scope.submit ∈ call.context.scopes
  reloading : ∀ pending, app.reloading = some pending → Scope.admin ∈ pending.context.scopes

theorem Within.guarded {may : Scope → Prop} (hg : app.Guarded) (h : Within may app app') :
    app'.Guarded where
  held := h.held hg.held
  calls := by
    intro call hc
    rcases h.calls call hc with hs | ⟨call', hc', he⟩
    · exact hs
    · exact he ▸ hg.calls call' hc'
  reloading pending hp := (h.reloading pending hp).elim id (hg.reloading pending)

theorem step_within {event : AppEvent} {reply : Option Reply} (hg : app.Guarded)
    (h : app.step env event = some (app', reply)) : Within (event.Holds app) app app' := by
  cases step_does h with
  | idle => exact .refl app
  | operates request ctx inputs front operation _ hscope hfresh =>
    exact operate_within ⟨ctx, rfl, hscope⟩ hscope hfresh
  | resumeSync j call m ticket hcall hm =>
    have hsubmit := hg.calls call (List.mem_of_getElem? hcall)
    have hholds : (AppEvent.resumeSync j).Holds app .submit :=
      ⟨call.context, by simp only [AppEvent.context, hcall, Option.map_some], hsubmit⟩
    have hput : Within ((AppEvent.resumeSync j).Holds app) app
        (app.putManager call.manager { m with syncLimit := m.syncLimit.resume ticket }) :=
      putManager_within hm ⟨⟨rfl, rfl, rfl⟩, rfl, rfl, rfl⟩ rfl
    exact hput.trans (sendSync_within hholds hsubmit)
  | endSync j outcome call m metrics reply hcall hm =>
    have hsubmit := hg.calls call (List.mem_of_getElem? hcall)
    have hput : Within ((AppEvent.endSync j outcome).Holds app) app
        (app.putManager call.manager { m with syncLimit := m.syncLimit.release }) :=
      putManager_within hm ⟨⟨rfl, rfl, rfl⟩, rfl, rfl, rfl⟩ rfl
    refine hput.trans (quiet_within _ _ _ _ _ rfl ⟨[], rfl, List.forall_mem_nil _⟩ ?_
      fun _ h => Or.inr h)
    intro c hc
    rcases List.mem_or_eq_of_mem_set hc with hc | rfl
    · exact Or.inr ⟨c, hc, rfl⟩
    · exact Or.inl hsubmit
  | resumeReload fault now pending m gathered hpending hm =>
    have hadmin : (AppEvent.resumeReload fault now).Holds app .admin :=
      ⟨pending.context, by simp only [AppEvent.context, hpending, Option.map_some],
        hg.reloading pending hpending⟩
    have hput : Within ((AppEvent.resumeReload fault now).Holds app) app
        (app.put pending.manager m (app.process m).stopped) :=
      put_within hm (Or.inl hadmin) (.of_handles rfl) (.refl _)
    exact hput.trans (installManager_within hadmin pending fault now)
  | background k action m p hm hco hact =>
    have hs := Process.act_stretch (hg.held m (List.mem_of_getElem? hm)) hco hact
    have hput : Within ((AppEvent.background k action).Holds app) app (app.put k m p) :=
      put_within hm (Or.inr ⟨hs.settings.workers, hs.settings.recovery, hs.settings.limits⟩)
        hs.sleeping hs.edited
    refine hput.trans (quiet_within _ _ _ _ _ rfl ⟨_, rfl, ?_⟩
      (fun call h => Or.inr ⟨call, h, rfl⟩) fun _ h => Or.inr h)
    intro d hd hsync
    obtain ⟨c, -, rfl⟩ := List.mem_map.mp hd
    cases hsync
  | shutdown m hm =>
    have hs := (app.process m).stop_settings
    have hput : Within (AppEvent.shutdown.Holds app) app (app.put 0 m (app.process m).stop) :=
      put_within hm (Or.inr ⟨hs.workers, hs.recovery, hs.limits⟩) (Process.stop_sleeps _) (by
        rw [Process.stop_world]
        exact .refl _)
    exact hput.trans (quiet_within _ _ _ _ _ rfl ⟨[], rfl, List.forall_mem_nil _⟩
      (fun call h => Or.inr ⟨call, h, rfl⟩) fun _ h => Or.inr h)
  | stopped m hm => exact put_within hm (Or.inr ⟨rfl, rfl, rfl⟩) (.of_handles rfl) (.refl _)

theorem step_checked {event : AppEvent} {reply : Reply}
    (h : app.step env event = some (app', some reply)) (hc : reply.checked ≠ none) :
    event.Holds app .read := by
  cases step_does h with
  | idle request ctx inputs reply hreply => exact absurd hreply hc
  | operates request ctx inputs front operation _ hscope _ =>
    exact ⟨ctx, rfl, operate_checked hc ▸ hscope⟩
  | endSync j outcome call m metrics reply _ _ _ hreply => exact absurd hreply hc
  | resumeReload fault now pending => exact absurd (reloadReply_checked pending.front _) hc

end App

namespace Server

variable {env : Environment} {disk : Text → World}

theorem created_guarded {files : Files} {root : LoggingState} {site : Site} {config : AppConfig}
    {now : String} {app : App} (h : created env files root site config now = some app) :
    app.Guarded := by
  obtain ⟨root', audit, p, -, -, hstart, rfl⟩ := App.createApp_ok (created_eq_some.mp h)
  obtain ⟨w', ready, -, hboot⟩ := startManager_ok hstart
  refine ⟨?_, ?_, ?_⟩
  · intro m hm
    obtain rfl := List.mem_singleton.mp hm
    exact fun i k t hat hph => (hboot.awake hat hph).elim
  · intro call hc
    cases hc
  · intro other he
    cases he

def Guards : Server → Prop
  | down _ => True
  | up app => app.Guarded

theorem guards_of_reachable {s : Server} (h : (machine env disk).Reachable Runs.anyStep s) :
    s.Guards := by
  refine h.invariant trivial ?_
  intro s e s' _ hi hstep
  cases step_steps hstep with
  | started site files root config now app happ => exact created_guarded happ
  | startCrashed | actCrashed | crashed => trivial
  | acted app event app' reply happ => exact (App.step_within hi happ).guarded hi

/-- The scopes are enforced in every step of every run, and a request of either front end that
lacks the scope for what it asks changes nothing.  The databases may hold anything to begin with. -/
theorem scopes_enforced {app app' : App} {event : AppEvent} {reply : Option Reply}
    (h : (machine env disk).Reachable Runs.anyStep (up app))
    (hstep : app.step env event = some (app', reply)) :
    app.Enforces event app' reply ∧
      ∀ request ctx inputs, event = .request request ctx inputs →
        (∀ operation, request.operation env = some operation → operation.scope ∉ ctx.scopes) →
        app' = app := by
  have hw := App.step_within (guards_of_reachable h) hstep
  refine ⟨⟨?_, hw.dispatched, ?_, hw.settings.symm, ?_⟩, ?_⟩
  · intro file id hnone hsome
    rcases hw.rows file id with he | hed
    · exact absurd (he.trans hnone) hsome
    · exact hed.inserted hnone
  · intro file id r hr hs herr
    rcases hw.rows file id with he | hed
    · exact Or.inl (he.symm.trans hr)
    · exact Or.inr (hed.revoked r hr hs herr)
  · intro front response hreply
    subst hreply
    exact App.step_checked hstep (Option.some_ne_none response)
  · intro request ctx inputs he hlack
    subst he
    simp only [App.step] at hstep
    split at hstep
    · cases hstep
      exact App.handle_of_lacking hlack
    · cases hstep

/-- A task that is submitted. -/
theorem scopes_enforced_submit : ∃ (app app' : App) (reply : Option Reply),
    (app.site.disk "/a".toList).store.get "a" = none ∧
    ((app'.site.disk "/a".toList).store.get "a").isSome = true ∧
    app.Enforces (Sample.submit Sample.operator "a") app' reply ∧
    ∀ request ctx inputs, Sample.submit Sample.operator "a" = .request request ctx inputs →
      (∀ operation, request.operation Sample.environment = some operation →
        operation.scope ∉ ctx.scopes) → app' = app := by
  obtain ⟨app, hs, hp⟩ := exists_running Sample.environment (fun _ => World.empty)
    [Sample.start (Sample.appConfig "/a".toList)]
    (fun app => (app.step Sample.environment (Sample.submit Sample.operator "a")).any fun out =>
      ((app.site.disk "/a".toList).store.get "a").isNone &&
        ((out.1.site.disk "/a".toList).store.get "a").isSome) (by decide)
  obtain ⟨⟨app', reply⟩, hstep, hrows⟩ := (Option.any_eq_true _ _).mp hp
  rw [Bool.and_eq_true] at hrows
  have henforced := scopes_enforced hs hstep
  exact ⟨app, app', reply, Option.isNone_iff_eq_none.mp hrows.1, hrows.2, henforced⟩

end Server

end WorkerBridge
