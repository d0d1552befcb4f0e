import WorkerBridge.Lifecycle
import WorkerBridge.Lifetime
import WorkerBridge.Shape

namespace WorkerBridge

open TaskState

namespace Process

variable {p q q' : Process} {a : Action}

/-- What a step writes, and what it counts for that. -/
inductive Writes (q q' : Process) : Prop
  | none (hs : q'.world.store = q.world.store) (hm : q'.mgr.metrics = q.mgr.metrics)
  | row {r r' : TaskRecord} (hrow : q.row r.taskId = some r) (hlive : r.state ∉ terminalStates)
      (hstore : q.store.upsert r' = .ok q'.store) (hid : r'.taskId = r.taskId)
      (hworker : r'.workerId = r.workerId) (hcreated : r'.createdAt = r.createdAt)
      (hm : q'.mgr.metrics = if r'.state ∈ terminalStates then
        q.mgr.metrics.incTaskCompleted r'.workerId r'.state else q.mgr.metrics)
  | new {r' : TaskRecord} (hfresh : q.row r'.taskId = Option.none) (hs : r'.state = pending)
      (hstore : q.store.insert r' = .ok q'.store)
      (hm : q'.mgr.metrics = q.mgr.metrics.incTaskCreated r'.workerId .async)

theorem Moves.writes (h : q.Moves a q') : Writes q q' := by
  cases h with
  | @accept request taskId now directory timeout task store hfresh htask hlim hstore =>
    subst htask
    exact .new hfresh rfl hstore rfl
  | cancel hrow hlive hstore =>
    exact .row (row_self hrow) hlive hstore rfl rfl rfl (if_pos cancelled_terminal).symm
  | attempt _ _ _ hrow hs hstore =>
    exact .row (row_self hrow) (not_terminal_of_queued hs) hstore rfl rfl rfl
      (if_neg (show running ∉ terminalStates by decide)).symm
  | settle _ _ hrow hs ht hstore =>
    have hmem : ∀ s ∈ [completed, failed, timedOut], s ∈ terminalStates := by decide
    refine .row (row_self hrow) ?_ hstore rfl rfl rfl (if_pos (hmem _ ht)).symm
    rw [hs]
    decide
  | abandon _ _ _ hrow hlive hstore =>
    exact .row (row_self hrow) hlive hstore rfl rfl rfl (if_pos cancelled_terminal).symm
  | stop =>
    unfold Process.stop
    split <;> exact .none rfl rfl
  | _ => exact .none rfl rfl

/-- The rows of a worker that are in `s` and were not when `p` began. -/
def endedIn (p : Process) (workerId : String) (s : TaskState) (r : TaskRecord) : Bool :=
  decide (r.workerId = workerId) && (decide (r.state = s) &&
    decide ((p.row r.taskId).map TaskRecord.state ≠ some s))

/-- The rows of a worker that were inserted since `p` began. -/
def insertedFor (p : Process) (workerId : String) (r : TaskRecord) : Bool :=
  decide (r.workerId = workerId) && (p.row r.taskId).isNone

/-- The counters of `q` against its rows and those of `p`. -/
structure Tally (p q : Process) : Prop where
  kept : ∀ id r, p.row id = some r →
    ∃ r', q.row id = some r' ∧ (r.state ∈ terminalStates → r' = r)
  completed : ∀ workerId, ∀ s ∈ terminalStates,
    q.mgr.metrics.tasksCompleted (workerId, s) = q.store.rows.countP (endedIn p workerId s)
  created : ∀ workerId,
    q.mgr.metrics.tasksCreated (workerId, .async) = q.store.rows.countP (insertedFor p workerId)

theorem Tally.start (hm : p.mgr.metrics = .zero) : Tally p p := by
  refine ⟨fun id r hr => ⟨r, hr, fun _ => rfl⟩, ?_, ?_⟩
  · intro workerId s _
    rw [hm]
    symm
    rw [show MetricsRegistry.zero.tasksCompleted (workerId, s) = 0 from rfl, List.countP_eq_zero]
    intro r hr
    have hrow : p.row r.taskId = some r := Store.get_of_mem hr
    unfold endedIn
    rw [hrow]
    simp
  · intro workerId
    rw [hm]
    symm
    rw [show MetricsRegistry.zero.tasksCreated (workerId, .async) = 0 from rfl, List.countP_eq_zero]
    intro r hr
    have hrow : p.row r.taskId = some r := Store.get_of_mem hr
    unfold insertedFor
    rw [hrow]
    simp

theorem Tally.not_ended (h : Tally p q) {r : TaskRecord} (hrow : q.row r.taskId = some r)
    (hlive : r.state ∉ terminalStates) {s : TaskState} (hs : s ∈ terminalStates) :
    (p.row r.taskId).map TaskRecord.state ≠ some s := by
  intro he
  obtain ⟨r₀, hr₀, hs₀⟩ := Option.map_eq_some_iff.mp he
  obtain ⟨r', hr', hsame⟩ := h.kept _ _ hr₀
  have hterm : r₀.state ∈ terminalStates := hs₀ ▸ hs
  rw [hrow] at hr'
  cases hr'
  exact hlive (hsame hterm ▸ hterm)

theorem endedIn_of_ne {r : TaskRecord} {s : TaskState} (h : r.state ≠ s) (workerId : String) :
    endedIn p workerId s r = false := by
  unfold endedIn
  rw [decide_eq_false h, Bool.false_and, Bool.and_false]

theorem Moves.kept (hm : q.Moves a q') (h : Tally p q) : ∀ id r, p.row id = some r →
    ∃ r', q'.row id = some r' ∧ (r.state ∈ terminalStates → r' = r) := by
  intro id r hr
  obtain ⟨r', hr', hsame⟩ := h.kept id r hr
  have hmove := hm.row id
  rw [hr'] at hmove
  generalize hnew : q'.row id = new at hmove
  cases hmove with
  | same => exact ⟨r', rfl, hsame⟩
  | change hlive =>
    refine ⟨_, rfl, fun hterm => ?_⟩
    rw [hsame hterm] at hlive
    exact absurd hterm hlive

theorem Tally.completed_of_row (h : Tally p q) {r r' : TaskRecord}
    (hrow : q.row r.taskId = some r) (hlive : r.state ∉ terminalStates)
    (hstore : q.store.upsert r' = .ok q'.store) (hid : r'.taskId = r.taskId)
    (hcreated : r'.createdAt = r.createdAt)
    (hmet : q'.mgr.metrics = if r'.state ∈ terminalStates then
      q.mgr.metrics.incTaskCompleted r'.workerId r'.state else q.mgr.metrics)
    (workerId : String) {s : TaskState} (hs : s ∈ terminalStates) :
    q'.mgr.metrics.tasksCompleted (workerId, s) =
      q'.store.rows.countP (endedIn p workerId s) := by
  have hget : q.store.get r'.taskId = some r := hid ▸ hrow
  have hold : endedIn p workerId s r = false :=
    endedIn_of_ne (fun he => hlive (he ▸ hs)) workerId
  have hnew : endedIn p workerId s r' = true ↔ r'.workerId = workerId ∧ r'.state = s := by
    have hno := h.not_ended hrow hlive hs
    rw [← hid] at hno
    unfold endedIn
    simp only [Bool.and_eq_true, decide_eq_true_eq]
    exact ⟨fun ⟨hw, hs, _⟩ => ⟨hw, hs⟩, fun ⟨hw, hs⟩ => ⟨hw, hs, hno⟩⟩
  -- The count changes by the row that is written, and the counter by its outcome.
  have hcount := Store.countP_upsert (endedIn p workerId s) hget hcreated hstore
  simp only [hold, hnew, Bool.false_eq_true, if_false, Nat.add_zero] at hcount
  have hmetric : q'.mgr.metrics.tasksCompleted (workerId, s) =
      q.mgr.metrics.tasksCompleted (workerId, s) +
        if r'.workerId = workerId ∧ r'.state = s then 1 else 0 := by
    rw [hmet]
    split
    · exact MetricsRegistry.tasksCompleted_inc ..
    · next hn =>
      rw [if_neg, Nat.add_zero]
      rintro ⟨-, rfl⟩
      exact hn hs
  rw [hmetric, hcount, h.completed workerId s hs]

theorem Tally.created_of_row (h : Tally p q) {r r' : TaskRecord}
    (hrow : q.row r.taskId = some r) (hstore : q.store.upsert r' = .ok q'.store)
    (hid : r'.taskId = r.taskId) (hworker : r'.workerId = r.workerId)
    (hcreated : r'.createdAt = r.createdAt)
    (hmet : q'.mgr.metrics = if r'.state ∈ terminalStates then
      q.mgr.metrics.incTaskCompleted r'.workerId r'.state else q.mgr.metrics)
    (workerId : String) :
    q'.mgr.metrics.tasksCreated (workerId, .async) =
      q'.store.rows.countP (insertedFor p workerId) := by
  have hget : q.store.get r'.taskId = some r := hid ▸ hrow
  have hsame : insertedFor p workerId r' = insertedFor p workerId r := by
    unfold insertedFor
    rw [hworker, hid]
  have hcount := Store.countP_upsert (insertedFor p workerId) hget hcreated hstore
  rw [hsame] at hcount
  have hmetric : q'.mgr.metrics.tasksCreated = q.mgr.metrics.tasksCreated := by
    rw [hmet]
    split <;> rfl
  rw [hmetric, h.created workerId]
  exact (Nat.add_right_cancel hcount).symm

theorem Tally.of_new (h : Tally p q) {r' : TaskRecord} (hfresh : q.row r'.taskId = none)
    (hs : r'.state = pending) (hstore : q.store.insert r' = .ok q'.store)
    (hmet : q'.mgr.metrics = q.mgr.metrics.incTaskCreated r'.workerId .async) :
    (∀ workerId, ∀ s ∈ terminalStates, q'.mgr.metrics.tasksCompleted (workerId, s) =
      q'.store.rows.countP (endedIn p workerId s)) ∧
    ∀ workerId, q'.mgr.metrics.tasksCreated (workerId, .async) =
      q'.store.rows.countP (insertedFor p workerId) := by
  constructor
  · intro workerId s hterm
    have hnew : endedIn p workerId s r' = false := by
      refine endedIn_of_ne ?_ workerId
      rw [hs]
      rintro rfl
      exact absurd hterm (by decide)
    have hcount := Store.countP_insert (endedIn p workerId s) hstore
    rw [hnew, if_neg Bool.false_ne_true, Nat.add_zero] at hcount
    rw [hmet, hcount]
    exact h.completed workerId s hterm
  · intro workerId
    have hunknown : p.row r'.taskId = none := by
      cases hr : p.row r'.taskId with
      | none => rfl
      | some r =>
        obtain ⟨r'', hr'', -⟩ := h.kept _ r hr
        rw [hfresh] at hr''
        cases hr''
    have hnew : insertedFor p workerId r' = true ↔
        r'.workerId = workerId ∧ Mode.async = .async := by
      unfold insertedFor
      rw [hunknown]
      simp
    have hcount := Store.countP_insert (insertedFor p workerId) hstore
    rw [if_congr hnew rfl rfl] at hcount
    rw [hmet, MetricsRegistry.tasksCreated_inc, hcount, h.created workerId]

theorem Moves.tally (hm : q.Moves a q') (h : Tally p q) : Tally p q' := by
  have hkept := hm.kept h
  cases hm.writes with
  | none hs hmet =>
    refine ⟨hkept, ?_, ?_⟩
    · unfold Process.store
      rw [hs, hmet]
      exact h.completed
    · unfold Process.store
      rw [hs, hmet]
      exact h.created
  | row hrow hlive hstore hid hworker hcreated hmet =>
    refine ⟨hkept, fun workerId s hs => ?_, fun workerId => ?_⟩
    · exact h.completed_of_row hrow hlive hstore hid hcreated hmet workerId hs
    · exact h.created_of_row hrow hstore hid hworker hcreated hmet workerId
  | new hfresh hs hstore hmet =>
    obtain ⟨hcompleted, hcreated⟩ := h.of_new hfresh hs hstore hmet
    exact ⟨hkept, hcompleted, hcreated⟩

theorem tally_of_reachable {host : Host} (hi : p.Inv) (hm : p.mgr.metrics = .zero)
    (h : (p.lifetime host).Reachable Runs.anyStep q) : Tally p q := by
  refine h.invariant' (Tally.start hm) ?_
  intro s a s' hreach _ hs hstep
  exact (act_moves (lifetime_inv hi hreach) hstep).tally hs

end Process

/-- The contents of the database from `w` on, the first first. -/
def World.since (w w' : World) : List Store := w'.history.drop w.past.length

/-- The row of the task entered `s` after `w`. -/
def World.entered (w w' : World) (s : TaskState) (taskId : String) : Bool :=
  History.enters (some s) ((w.since w').map fun st => (st.get taskId).map TaskRecord.state)

theorem World.since_eq {w w' : World} (h : w.history <+: w'.history) :
    ∃ rest, w.since w' = w.store :: rest := by
  obtain ⟨rest, hr⟩ := h
  refine ⟨rest, ?_⟩
  unfold World.since
  rw [← hr]
  simp [World.history, World.versions]

theorem World.getLast?_since {w w' : World} (h : w.history <+: w'.history) :
    (w.since w').getLast? = some w'.store := by
  have hlen := h.length_le
  unfold World.since
  rw [List.getLast?_drop, if_neg]
  · simp [World.history, World.versions]
  · simp only [World.history, World.versions, List.length_reverse, List.length_cons] at hlen ⊢
    omega

theorem Store.Evolves.state {st st' : Store} (h : st.Evolves st') (taskId : String) {s : TaskState}
    (hs : s ∈ terminalStates) (he : (st.get taskId).map TaskRecord.state = some s) :
    (st'.get taskId).map TaskRecord.state = some s := by
  obtain ⟨r, hr, hrs⟩ := Option.map_eq_some_iff.mp he
  rw [h.keepsTerminal taskId r hr (hrs ▸ hs)]
  exact congrArg some hrs

theorem World.entered_iff {w w' : World} (h : w.history <+: w'.history) (hc : w'.Chained)
    (taskId : String) {s : TaskState} (hs : s ∈ terminalStates) :
    w.entered w' s taskId = true ↔ (w.store.get taskId).map TaskRecord.state ≠ some s ∧
      (w'.store.get taskId).map TaskRecord.state = some s := by
  have hlast := World.getLast?_since h
  have hchain : ((w.since w').map fun st => (st.get taskId).map TaskRecord.state).IsChain
      fun x y => x = some s → y = some s := by
    rw [List.isChain_map]
    exact (hc.drop _).imp fun st st' hev => hev.state taskId hs
  obtain ⟨rest, hrest⟩ := World.since_eq h
  unfold World.entered
  rw [hrest] at hlast hchain ⊢
  rw [List.map_cons] at hchain ⊢
  rw [History.enters_iff hchain,
    ← List.map_cons (f := fun st : Store => (st.get taskId).map TaskRecord.state),
    List.getLast?_map, hlast, Option.map_some, Option.some.injEq]

theorem World.MarksMany.ended {w w' : World} (h : w.MarksMany w') (taskId : String) :
    (∀ s ∈ terminalStates, (w'.store.get taskId).map TaskRecord.state = some s ↔
      (w.store.get taskId).map TaskRecord.state = some s) ∧
    (w'.store.get taskId).isNone = (w.store.get taskId).isNone := by
  induction h with
  | refl => exact ⟨fun _ _ => Iff.rfl, rfl⟩
  | tail _ hm ih =>
    rcases hm.edit taskId with he | ⟨r, now, hr, hr', hlive, -⟩
    · rw [he]
      exact ih
    · rw [hr] at ih
      rw [hr']
      refine ⟨fun s hs => ?_, ih.2⟩
      rw [← ih.1 s hs]
      have h1 : recovering ≠ s := by
        rintro rfl
        exact absurd hs (by decide)
      have h2 : r.state ≠ s := fun he => hlive (he ▸ hs)
      exact ⟨fun he => absurd (Option.some.inj he) h1, fun he => absurd (Option.some.inj he) h2⟩

/-- In every lifetime of a process the completions counted for a worker are its tasks
that ended in it, each in one state, and the creations its new rows. -/
theorem completions_counted {host : Host} {w : World} {settings : Settings} {now : String}
    {p q : Process} (hw : (Bridge.machine host).Reachable Runs.anyStep (.down w))
    (hp : Bridge.started w settings now = some p)
    (hq : (p.lifetime host).Reachable Runs.anyStep q) :
    (∀ workerId, ∀ s ∈ terminalStates, q.mgr.metrics.tasksCompleted (workerId, s) =
      q.store.rows.countP fun r =>
        decide (r.workerId = workerId) && w.entered q.world s r.taskId) ∧
    (∀ id, ∀ s ∈ terminalStates, ∀ s' ∈ terminalStates,
      w.entered q.world s id = true → w.entered q.world s' id = true → s = s') ∧
    ∀ workerId, q.mgr.metrics.tasksCreated (workerId, .async) =
      q.store.rows.countP fun r =>
        decide (r.workerId = workerId) && (w.store.get r.taskId).isNone := by
  have hup := Process.started_reachable hw hp
  have hleads : (Bridge.machine host).Leads Runs.anyStep (.down w) (.up q) := by
    refine Relation.ReflTransGen.head ⟨.start settings now, trivial, ?_⟩
      (Process.leads_of_lifetime hq)
    show (Bridge.started w settings now).map Bridge.up = some (.up p)
    rw [hp]
    rfl
  have hprefix : w.history <+: q.world.history := history_prefix hw hleads
  have hchain : q.world.Chained := chained_of_reachable (hw.leads hleads)
  obtain ⟨w', ready, hmarks, hb⟩ := started_booted hp
  -- The registry of a new process counts from nothing.
  have hzero : p.mgr.metrics = .zero := by
    rw [hb.mgr]
    rfl
  have hrow : ∀ id, p.row id = w'.store.get id := fun id => congrFun hb.row id
  have htally := Process.tally_of_reachable (inv_of_reachable hup) hzero hq
  have hiff : ∀ id, ∀ s ∈ terminalStates, _ :=
    fun id s hs => World.entered_iff hprefix hchain id hs
  refine ⟨?_, ?_, ?_⟩
  · intro workerId s hs
    rw [htally.completed workerId s hs]
    refine List.countP_congr fun r hr => ?_
    have hget : q.world.store.get r.taskId = some r := Store.get_of_mem hr
    have hended := (hmarks.ended r.taskId).1 s hs
    unfold Process.endedIn
    simp only [Bool.and_eq_true, decide_eq_true_eq, hiff r.taskId s hs, hrow, ne_eq, hended, hget,
      Option.map_some, Option.some.injEq]
    exact ⟨fun ⟨hw, hs, hno⟩ => ⟨hw, hno, hs⟩, fun ⟨hw, hno, hs⟩ => ⟨hw, hs, hno⟩⟩
  · intro id s hs s' hs' he he'
    -- The last state of the row is the one it ended in.
    have h1 := ((hiff id s hs).mp he).2
    have h2 := ((hiff id s' hs').mp he').2
    exact Option.some.inj (h1.symm.trans h2)
  · intro workerId
    rw [htally.created workerId]
    refine List.countP_congr fun r _ => ?_
    unfold Process.insertedFor
    rw [hrow, (hmarks.ended r.taskId).2]

/-- A task that a restart sends again is cancelled while it runs, and counted once. -/
theorem completions_counted_restart : ∃ (w : World) (q : Process),
    q.mgr.metrics.tasksCompleted ("w", cancelled) = 1 ∧
      (q.store.rows.countP fun r => decide (r.workerId = "w") &&
        w.entered q.world cancelled r.taskId) = 1 := by
  have hrun : ∃ b, (Bridge.machine Sample.host).Reachable Runs.anyStep b ∧ _ :=
    Runs.Machine.exists_reachable_of_run (Bridge.machine Sample.host) Runs.anyStep
      [.start (Sample.settings .always 0) "t0", Sample.call "a" none,
        .act (.resume 0 "r" "t1"), .crash]
      (fun b => match b with
        | .up _ => false
        | .down w => decide (((Bridge.started w (Sample.settings .always 0) "t2").bind fun p =>
            ((p.lifetime Sample.host).run Runs.anyStep p
              [.resume 0 "s" "t3", .cancel "a" "t4", .throwCancelled 0 "t5"]).map fun q =>
                (q.mgr.metrics.tasksCompleted ("w", cancelled))) = some 1)) (by decide)
  obtain ⟨b, hb, hcheck⟩ := hrun
  cases b with
  | up p => cases hcheck
  | down w =>
    rw [decide_eq_true_iff] at hcheck
    obtain ⟨p, hp, hq⟩ := Option.bind_eq_some_iff.mp hcheck
    obtain ⟨q, hrun, hone⟩ := Option.map_eq_some_iff.mp hq
    have hreach := Runs.Machine.reachable_of_run (M := p.lifetime Sample.host) hrun
    refine ⟨w, q, hone, ?_⟩
    rw [← (completions_counted hb hp hreach).1 "w" cancelled (by decide)]
    exact hone

end WorkerBridge
