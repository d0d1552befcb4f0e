import WorkerBridge.Admission

namespace WorkerBridge

open TaskState

/-- A live row that has the property after it has left pending had it before. -/
def Shrinks (f : TaskRecord → Bool) : Prop :=
  ∀ r r' : TaskRecord, r.state ∉ terminalStates → r'.state ≠ pending →
    r'.idempotencyKey = r.idempotencyKey → r'.workerId = r.workerId → f r' = true → f r = true

theorem shrinks_isLive : Shrinks Store.isLive := by
  intro r r' hlive _ _ _ _
  exact decide_eq_true hlive

theorem shrinks_isLiveOf (workerId : String) : Shrinks (Store.isLiveOf workerId) := by
  intro r r' hlive _ _ hworker hf
  unfold Store.isLiveOf Store.isLive at hf ⊢
  rw [Bool.and_eq_true, decide_eq_true_iff, decide_eq_true_iff] at hf ⊢
  exact ⟨hlive, hworker ▸ hf.2⟩

theorem worker_of_isLiveOf {workerId : String} {r : TaskRecord}
    (h : Store.isLiveOf workerId r = true) : r.workerId = workerId := by
  unfold Store.isLiveOf at h
  rw [Bool.and_eq_true, decide_eq_true_iff] at h
  exact h.2

variable {f : TaskRecord → Bool}

theorem World.Marks.countP {w w' : World} (hf : Shrinks f) (h : w.Marks w') :
    w'.store.rows.countP f ≤ w.store.rows.countP f := by
  apply Store.countP_le
  intro id r hr hfr
  rcases h.row id with hs | ⟨s, s', hs, hs', hlive, -, hrec, hkey, hworker⟩
  · exact ⟨r, hs ▸ hr, hfr⟩
  · rw [hs'] at hr
    cases hr
    refine ⟨s, hs, hf s _ hlive ?_ hkey hworker hfr⟩
    rw [hrec]
    decide

namespace Process

variable {p p' : Process} {a : Action}

theorem RowMove.property {r' : TaskRecord} {row : Option TaskRecord} (hf : Shrinks f)
    (h : RowMove row (some r')) (hold : row ≠ none) (hfr : f r' = true) :
    ∃ r, row = some r ∧ f r = true := by
  cases h with
  | same => exact ⟨r', rfl, hfr⟩
  | new => exact absurd rfl hold
  | @change r _ hlive hs hkey hworker =>
    refine ⟨r, rfl, hf r r' hlive ?_ hkey hworker hfr⟩
    intro hp
    rw [hp] at hs
    exact hs (by decide)

theorem Accepts.countP {request : CallRequest} {taskId : String} {task : TaskRecord}
    (h : Accepts p p' request taskId task) (f : TaskRecord → Bool) :
    p'.store.rows.countP f ≤ p.store.rows.countP f + if f task then 1 else 0 := by
  have hkept : ∀ id r, p'.store.get id = some r → f r = true → id ≠ taskId →
      ∃ s, p.store.get id = some s ∧ f s = true := by
    intro id r hr hfr hne
    exact ⟨r, (h.other' id hne).symm.trans hr, hfr⟩
  split
  · exact Store.countP_le_succ taskId hkept
  · next hnot =>
    apply Store.countP_le
    intro id r hr hfr
    refine hkept id r hr hfr ?_
    intro he
    have htask := h.row'
    rw [← he] at htask
    obtain rfl : r = task := Option.some.inj (hr.symm.trans htask)
    exact hnot hfr

theorem Moves.countP (hf : Shrinks f) (hi : p.Inv) (h : p.Moves a p') :
    p'.store.rows.countP f ≤ p.store.rows.countP f ∨
      ∃ request taskId now task, a = .call request taskId now ∧
        Accepts p p' request taskId task := by
  rcases h.accepts hi with ⟨hnew, -⟩ | hacc
  · refine Or.inl (Store.countP_le ?_)
    intro id r hr hfr
    have hmove := h.row id
    have hold : p.row id ≠ none := by
      intro hnone
      have hnone' := hnew id hnone
      exact absurd (hnone'.symm.trans hr) (by simp)
    have hrow : p'.row id = some r := hr
    rw [hrow] at hmove
    exact RowMove.property hf hmove hold hfr
  · exact Or.inr hacc

end Process

def Store.knows (store : Store) (key : Option String) : Bool :=
  key.any fun k => (store.getByIdempotencyKey k).isSome

/-- The runs with the cap `k` in which a call that can insert a row finds fewer
than `k` queued and running rows of its worker. -/
def paced (k : ℕ) : Allowed where
  settings settings := settings.limits.perWorkerActiveTasks = some k
  action p
    | .call request _ _ => p.store.knows request.idempotencyKey = true ∨
        k ≤ p.store.countByStates activeStates (some request.workerId) ∨
        p.store.countByStates queuedStates (some request.workerId) +
          p.store.countByStates activeStates (some request.workerId) < k
    | .reload _ _ limits => limits.perWorkerActiveTasks = some k
    | _ => True

def WithinCap (k : ℕ) (store : Store) : Prop :=
  ∀ workerId, store.rows.countP (Store.isLiveOf workerId) ≤ k

theorem Process.Moves.withinCap {p p' : Process} {a : Action} {k : ℕ}
    (hlim : p.mgr.limits.perWorkerActiveTasks = some k) (ha : (paced k).action p a) (hi : p.Inv)
    (hcap : WithinCap k p.store) (h : p.Moves a p') : WithinCap k p'.store := by
  intro workerId
  have hold := hcap workerId
  rcases h.countP (shrinks_isLiveOf workerId) hi with hle | ⟨request, taskId, now, task, rfl, hacc⟩
  · exact hle.trans hold
  · refine (hacc.countP _).trans ?_
    split
    · next hlive =>
      obtain rfl : request.workerId = workerId := hacc.worker.symm.trans (worker_of_isLiveOf hlive)
      rcases ha with hknown | hactive | hroom
      · -- The key of an inserted row was new.
        unfold Store.knows at hknown
        cases hkey : request.idempotencyKey with
        | none =>
          rw [hkey] at hknown
          cases hknown
        | some key =>
          rw [hkey, Option.any_some, hacc.first key hkey] at hknown
          cases hknown
      · have hnot := Manager.not_saturated hacc.limits
        exact absurd (Or.inr (Or.inr (Or.inr ⟨k, hlim, hactive⟩))) hnot
      · rw [Store.countP_isLiveOf]
        omega
    · exact hold

theorem paced_rule (k : ℕ) : Rule (paced k) (fun w => WithinCap k w.store)
    (fun p => WithinCap k p.store ∧ p.mgr.limits.perWorkerActiveTasks = some k) where
  empty := fun _ => Nat.zero_le _
  mark := by
    intro w w' _ hd hm workerId
    exact (hm.countP (shrinks_isLiveOf workerId)).trans (hd workerId)
  boot := by
    intro w settings ready p hset _ hd hb
    refine ⟨?_, ?_⟩
    · unfold Process.store
      rw [hb.world]
      exact hd
    · rw [hb.mgr]
      exact hset
  move := by
    intro p p' a ha hi hu hm
    refine ⟨hm.withinCap hu.2 ha hi hu.1, ?_⟩
    rcases hm.settings with ⟨hl, -⟩ | ⟨workers, recovery, limits, rfl, hl, -⟩
    · rw [hl]
      exact hu.2
    · rw [hl]
      exact ha
  world := fun _ hu => hu.1
  forget := fun hd _ _ => hd

/-- While calls are paced, no worker has more running tasks than its cap. -/
theorem active_le_of_paced {host : Host} {k : ℕ} {b : Bridge}
    (h : (Bridge.machine host).Reachable (paced k).ok b) (workerId : String) :
    b.world.store.countByStates activeStates (some workerId) ≤ k := by
  have hcap : WithinCap k b.world.store := by
    have hb := (paced_rule k).holds h
    cases b with
    | down w => exact hb.2
    | up p => exact hb.2.1
  have hlive := hcap workerId
  rw [Store.countP_isLiveOf] at hlive
  omega

instance (k : ℕ) : DecidablePred (paced k).settings :=
  fun settings => inferInstanceAs (Decidable (settings.limits.perWorkerActiveTasks = some k))

instance (k : ℕ) (p : Process) (a : Action) : Decidable ((paced k).action p a) :=
  match a with
  | .call _ _ _ => inferInstanceAs (Decidable (_ ∨ _))
  | .reload _ _ limits => inferInstanceAs (Decidable (limits.perWorkerActiveTasks = some k))
  | .check _ | .cancel _ _ | .resume _ _ _ | .workerReturned _ _ _ | .workerRaised _ _ _
  | .throwCancelled _ _ | .doneCallback _ | .stop | .stopped => isTrue trivial

/-- A second task waits for the first, under a cap of one. -/
theorem active_le_of_paced_one : ∃ b : Bridge,
    b.world.calls.length = 2 ∧ b.world.store.countByStates activeStates (some "w") ≤ 1 := by
  obtain ⟨b, hb, hp⟩ := Runs.Machine.exists_reachable_of_run (Bridge.machine Sample.host)
    (paced 1).ok
    [.start Sample.capped "t0", Sample.call "a" none, .act (.resume 0 "r" "t1"),
      .act (.workerReturned 0 .null "t2"), Sample.call "b" none, .act (.resume 1 "s" "t3")]
    (fun b => decide (b.world.calls.length = 2)) (by decide)
  exact ⟨b, of_decide_eq_true hp, active_le_of_paced hb "w"⟩

def Action.ordinary : Action → Bool
  | .stop | .stopped | .reload _ _ _ => false
  | _ => true

/-- The runs of one process with the cap `k`: submissions, cancels and the steps
of the coroutines. -/
def capped (k : ℕ) : Bridge → Event → Prop
  | .down w, .start settings _ => w.lifetimes = 0 ∧ settings.limits.perWorkerActiveTasks = some k
  | .up _, .act a => a.ordinary = true
  | _, _ => False

instance (k : ℕ) (b : Bridge) (e : Event) : Decidable (capped k b e) :=
  match b, e with
  | .down _, .start _ _ => inferInstanceAs (Decidable (_ ∧ _))
  | .up _, .act a => inferInstanceAs (Decidable (a.ordinary = true))
  | .up _, .start _ _ => isFalse id
  | .up _, .actCrash _ _ => isFalse id
  | .down _, .act _ => isFalse id
  | .down _, .actCrash _ _ => isFalse id
  | .up _, .startCrash _ _ _ => isFalse id
  | .down _, .startCrash _ _ _ => isFalse id
  | .up _, .crash => isFalse id
  | .down _, .crash => isFalse id

/-- Two tasks are accepted before the first begins, and then both run. -/
theorem active_exceeds_cap : ∃ b : Bridge, (Bridge.machine Sample.host).Reachable (capped 1) b ∧
    ¬ b.world.store.countByStates activeStates (some "w") ≤ 1 := by
  obtain ⟨b, hb, hp⟩ := Runs.Machine.exists_reachable_of_run (Bridge.machine Sample.host) (capped 1)
    [.start Sample.capped "t0", Sample.call "a" none, Sample.call "b" none,
      .act (.resume 0 "r" "t1"), .act (.resume 1 "s" "t1")]
    (fun b => decide (b.world.store.countByStates activeStates (some "w") = 2)) (by decide)
  rw [decide_eq_true_iff] at hp
  exact ⟨b, hb, by omega⟩

/-- Whether a process with this policy would send the row after a crash. -/
def returns (policy : RecoveryPolicy) (r : TaskRecord) : Bool :=
  Store.isLive r && (decide (r.state = pending) ||
    match policy with
    | .always => true
    | .idempotent => r.idempotencyKey.any fun key => decide (key ≠ "")
    | .manual => false)

theorem shrinks_returns (policy : RecoveryPolicy) : Shrinks (returns policy) := by
  intro r r' hlive hnp hkey _ hf
  unfold returns Store.isLive at hf ⊢
  rw [hkey] at hf
  simp only [hnp, decide_false, Bool.false_or, Bool.and_eq_true] at hf
  simp only [hlive, hf.2, not_false_eq_true, decide_true, Bool.or_true, Bool.and_self]

theorem startSchedules_eq_returns {recovery : RecoveryConfig} {r : TaskRecord}
    (hs : r.state ∈ terminalStates ∨ r.state ∈ queuedStates) :
    Process.startSchedules recovery r = returns recovery.policy r := by
  unfold Process.startSchedules returns Store.isLive
  rcases hs with hterm | hq
  · simp only [hterm, not_true_eq_false, decide_false, Bool.false_and]
  · have hstate : r.state = pending ∨ r.state = recovering := by
      simpa only [queuedStates, List.mem_cons, List.not_mem_nil, or_false] using hq
    rcases hstate with hp | hrec
    · simp [hp]
    · unfold recoveryAllowsReplay
      cases hpol : recovery.policy with
      | always => simp [hrec]
      | idempotent => cases hkey : r.idempotencyKey <;> simp [hrec]
      | manual => simp [hrec]

/-- The bounds on the rows of the database. -/
structure Bounded (limits : LimitsConfig) (policy : RecoveryPolicy) (store : Store) : Prop where
  returning : store.rows.countP (returns policy) ≤ limits.globalActiveTasks
  live : store.rows.countP Store.isLive ≤ limits.globalPendingTasks + limits.globalActiveTasks
  liveOf : ∀ workerId, store.rows.countP (Store.isLiveOf workerId) ≤
    limits.perWorkerPendingTasks + limits.globalActiveTasks

/-- The runs with fixed limits and a fixed policy.  A process takes no call once
its `stop` has begun. -/
def fixed (limits : LimitsConfig) (policy : RecoveryPolicy) : Allowed where
  settings settings := settings.limits = limits ∧ settings.recovery.policy = policy
  action p
    | .call _ _ _ => p.mgr.started = true ∧ p.mgr.gathering = none
    | .reload _ recovery limits' => limits' = limits ∧ recovery.policy = policy
    | _ => True

/-- Every interrupted row that returns has a coroutine that is not over. -/
def Resumed (policy : RecoveryPolicy) (p : Process) : Prop :=
  ∀ id r, p.row id = some r → r.state = recovering → returns policy r = true →
    ∃ (i : ℕ) (k : Handle), p.mgr.handles[i]? = some k ∧ k.taskId = id ∧ k.phase.done = false

namespace Process

variable {p p' : Process} {a : Action}

theorem countP_le_activeCount (hl : Live p.row p.mgr) (f : TaskRecord → Bool)
    (hf : ∀ id r, p.row id = some r → f r = true →
      ∃ (i : ℕ) (k : Handle), p.mgr.handles[i]? = some k ∧ k.taskId = id ∧ k.phase.done = false) :
    p.store.rows.countP f ≤ p.mgr.activeCount := by
  have hlen : p.mgr.activeCount =
      ((p.mgr.background.filter fun e => !p.mgr.done e.2).map Prod.fst).length := by
    rw [List.length_map, ← List.countP_eq_length_filter]
    rfl
  rw [hlen]
  apply Table.countP_le_length f p.store.distinct
  intro r hr hfr
  obtain ⟨i, k, hk, hid, hd⟩ := hf r.taskId r (Store.get_of_mem hr) hfr
  have htracked := hl.tracked i k hk hd
  refine List.mem_map.mpr ⟨(k.taskId, i), List.mem_filter.mpr ⟨htracked, ?_⟩, hid⟩
  unfold Manager.done
  rw [hk]
  simp only [hd, Bool.not_false]

theorem active_le_activeCount (hi : p.Inv) (hl : Live p.row p.mgr) :
    p.store.countByStates activeStates none ≤ p.mgr.activeCount := by
  apply countP_le_activeCount hl
  intro id r hr hs
  have hrun : r.state = running := by
    have hnot := hi.sound.notRetrying id r hr
    have hmem := of_decide_eq_true hs
    revert hnot hmem
    cases r.state <;> decide
  obtain ⟨i, k, hk, hid, hph⟩ := hi.coherent.runningHeld id r hr hrun
  exact ⟨i, k, hk, hid, by rw [hph]; rfl⟩

theorem returns_le_activeCount {policy : RecoveryPolicy} (hi : p.Inv) (hl : Live p.row p.mgr)
    (hres : Resumed policy p) : p.store.rows.countP (returns policy) ≤ p.mgr.activeCount := by
  apply countP_le_activeCount hl
  intro id r hr hret
  have hlive : r.state ∉ terminalStates := by
    unfold returns Store.isLive at hret
    rw [Bool.and_eq_true, decide_eq_true_iff] at hret
    exact hret.1
  -- Pending and running rows always have a coroutine; recovering ones if they return.
  cases hs : r.state with
  | pending => exact hl.held id r hr hs
  | running =>
    obtain ⟨i, k, hk, hid, hph⟩ := hi.coherent.runningHeld id r hr hs
    exact ⟨i, k, hk, hid, by rw [hph]; rfl⟩
  | recovering => exact hres id r hr hs hret
  | retrying => exact absurd hs (hi.sound.notRetrying id r hr)
  | completed | failed | cancelled | timedOut =>
    rw [hs] at hlive
    exact absurd (by decide) hlive

theorem Moves.resumed {policy : RecoveryPolicy} (hi : p.Inv) (hl : Live p.row p.mgr)
    (hres : Resumed policy p) (h : p.Moves a p') : Resumed policy p' := by
  intro id r hr hrec hret
  have hold := h.row_of_recovering hr hrec
  obtain ⟨i, k, hk, rfl, hd⟩ := hres id r hold hrec hret
  rcases h.handle_live hi hl hk hd with ⟨k', hk', hid, hd'⟩ | ⟨s, hs, hterm⟩
  · exact ⟨i, k', hk', hid, hd'⟩
  · rw [hr] at hs
    cases hs
    rw [hrec] at hterm
    exact absurd hterm (by decide)

theorem Moves.was_live (h : p.Moves a p') (hs : p'.mgr.started = true)
    (hg : p'.mgr.gathering = none) : p.mgr.started = true ∧ p.mgr.gathering = none := by
  cases h with
  | stop =>
    unfold Process.stop at hs hg
    split at hs
    · cases hs
    · next hne =>
      rw [if_neg hne] at hg
      cases hg
  | stopped => cases hs
  | _ => exact ⟨hs, hg⟩

theorem Accepts.bounded {limits : LimitsConfig} {policy : RecoveryPolicy} {request : CallRequest}
    {taskId : String} {task : TaskRecord} (hlim : p.mgr.limits = limits) (hi : p.Inv)
    (hl : Live p.row p.mgr) (hres : Resumed policy p) (hb : Bounded limits policy p.store)
    (h : Accepts p p' request taskId task) : Bounded limits policy p'.store := by
  have hroom := Manager.not_saturated h.limits
  unfold Manager.Saturated at hroom
  rw [hlim] at hroom
  simp only [not_or, not_le] at hroom
  obtain ⟨hpending, hworker, hactive, -⟩ := hroom
  have hone : ∀ f : TaskRecord → Bool,
      p'.store.rows.countP f ≤ p.store.rows.countP f + 1 := by
    intro f
    refine (h.countP f).trans ?_
    split <;> omega
  have hrunning := active_le_activeCount hi hl
  refine ⟨?_, ?_, ?_⟩
  · -- What returns has a live handle, and there is room for one more.
    have hreturns := returns_le_activeCount hi hl hres
    have hle := hone (returns policy)
    omega
  · -- The queue has room, and the running rows have live handles.
    have hle := hone Store.isLive
    rw [Store.countP_isLive p.store] at hle
    omega
  · intro workerId
    have hle := h.countP (Store.isLiveOf workerId)
    split at hle
    · next hlive =>
      obtain rfl : request.workerId = workerId := h.worker.symm.trans (worker_of_isLiveOf hlive)
      rw [Store.countP_isLiveOf p.store] at hle
      have hsome : p.store.countByStates activeStates (some request.workerId) ≤
          p.store.countByStates activeStates none := by
        apply List.countP_mono_left
        intro r _ hr
        rw [Bool.and_eq_true] at hr
        exact hr.1
      omega
    · exact hle.trans (hb.liveOf workerId)

theorem Moves.bounded {limits : LimitsConfig} {policy : RecoveryPolicy}
    (hlim : p.mgr.limits = limits) (ha : (fixed limits policy).action p a) (hi : p.Inv)
    (hres : p.mgr.started = true → p.mgr.gathering = none → Resumed policy p)
    (hb : Bounded limits policy p.store) (h : p.Moves a p') : Bounded limits policy p'.store := by
  have hcases : Bounded limits policy p'.store ∨ ∃ request taskId now task,
      a = .call request taskId now ∧ Accepts p p' request taskId task := by
    by_cases hacc : ∃ request taskId now task,
        a = .call request taskId now ∧ Accepts p p' request taskId task
    · exact Or.inr hacc
    · have hle : ∀ f, Shrinks f → p'.store.rows.countP f ≤ p.store.rows.countP f :=
        fun f hf => (h.countP hf hi).resolve_right hacc
      refine Or.inl ⟨?_, ?_, ?_⟩
      · exact (hle _ (shrinks_returns policy)).trans hb.returning
      · exact (hle _ shrinks_isLive).trans hb.live
      · exact fun workerId => (hle _ (shrinks_isLiveOf workerId)).trans (hb.liveOf workerId)
  rcases hcases with hbound | ⟨request, taskId, now, task, rfl, hacc⟩
  · exact hbound
  · obtain ⟨hs, hg⟩ := ha
    exact hacc.bounded hlim hi (hi.coherent.live hs hg) (hres hs hg) hb

end Process

theorem World.Marks.bounded {w w' : World} {limits : LimitsConfig} {policy : RecoveryPolicy}
    (h : w.Marks w') (hb : Bounded limits policy w.store) : Bounded limits policy w'.store where
  returning := (h.countP (shrinks_returns policy)).trans hb.returning
  live := (h.countP shrinks_isLive).trans hb.live
  liveOf workerId := (h.countP (shrinks_isLiveOf workerId)).trans (hb.liveOf workerId)

namespace Booted

variable {w : World} {settings : Settings} {ready : List TaskRecord} {p : Process}

theorem ready_returns (hb : Booted w settings ready p) {t : TaskRecord} :
    t ∈ ready ↔ w.store.get t.taskId = some t ∧ returns settings.recovery.policy t = true := by
  rw [hb.mem]
  constructor
  · rintro ⟨hr, hs⟩
    exact ⟨hr, (startSchedules_eq_returns (hb.quiet _ _ hr)).symm.trans hs⟩
  · rintro ⟨hr, hs⟩
    exact ⟨hr, (startSchedules_eq_returns (hb.quiet _ _ hr)).trans hs⟩

theorem activeCount (hb : Booted w settings ready p) :
    p.mgr.activeCount ≤ w.store.rows.countP (returns settings.recovery.policy) := by
  have hlen : p.mgr.activeCount ≤ ready.length := by
    unfold Manager.activeCount
    refine List.countP_le_length.trans ?_
    rw [hb.mgr]
    simp
  refine hlen.trans ?_
  -- The scheduled tasks are distinct rows that return.
  rw [List.countP_eq_length_filter]
  apply List.Subperm.length_le
  apply hb.nodup.of_map.subperm
  intro t ht
  obtain ⟨hr, hs⟩ := hb.ready_returns.mp ht
  exact List.mem_filter.mpr ⟨(Store.mem_of_get hr).1, hs⟩

theorem resumed (hb : Booted w settings ready p) : Resumed settings.recovery.policy p := by
  intro id r hr _ hret
  rw [hb.row] at hr
  have hid := Store.taskId_of_get hr
  subst hid
  obtain ⟨i, hi⟩ := List.getElem?_of_mem (hb.ready_returns.mpr ⟨hr, hret⟩)
  exact ⟨i, _, hb.at_iff.mpr ⟨r, hi, rfl⟩, rfl, rfl⟩

end Booted

/-- What runs with fixed settings keep of a running process. -/
structure Steady (limits : LimitsConfig) (policy : RecoveryPolicy) (p : Process) : Prop where
  bounded : Bounded limits policy p.store
  active : p.mgr.activeCount ≤ limits.globalActiveTasks
  resumed : p.mgr.started = true → p.mgr.gathering = none → Resumed policy p
  limits : p.mgr.limits = limits
  policy : p.mgr.recovery.policy = policy

theorem Steady.move {limits : LimitsConfig} {policy : RecoveryPolicy} {p p' : Process} {a : Action}
    (ha : (fixed limits policy).action p a) (hi : p.Inv) (hs : Steady limits policy p)
    (h : p.Moves a p') : Steady limits policy p' := by
  have hkept : p'.mgr.limits = limits ∧ p'.mgr.recovery.policy = policy := by
    rcases h.settings with ⟨hl, hr⟩ | ⟨workers, recovery, limits', rfl, hl, hr⟩
    · rw [hl, hr]
      exact ⟨hs.limits, hs.policy⟩
    · rw [hl, hr]
      exact ha
  refine ⟨h.bounded hs.limits ha hi hs.resumed hs.bounded, ?_, ?_, hkept.1, hkept.2⟩
  · rcases h.activeCount hi with hle | ⟨⟨request, taskId, now, task, -, hacc⟩, hle⟩
    · exact hle.trans hs.active
    · have hroom := Manager.not_saturated hacc.limits
      unfold Manager.Saturated at hroom
      rw [hs.limits] at hroom
      simp only [not_or, not_le] at hroom
      omega
  · intro hstarted hgathering
    obtain ⟨h1, h2⟩ := h.was_live hstarted hgathering
    exact h.resumed hi (hi.coherent.live h1 h2) (hs.resumed h1 h2)

theorem steady_rule (limits : LimitsConfig) (policy : RecoveryPolicy) :
    Rule (fixed limits policy) (fun w => Bounded limits policy w.store) (Steady limits policy) where
  empty := ⟨Nat.zero_le _, Nat.zero_le _, fun _ => Nat.zero_le _⟩
  mark := fun _ hd hm => hm.bounded hd
  boot := by
    intro w settings ready p hset _ hd hb
    obtain ⟨rfl, rfl⟩ := hset
    refine ⟨?_, hb.activeCount.trans hd.returning, fun _ _ => hb.resumed, ?_, ?_⟩
    · unfold Process.store
      rw [hb.world]
      exact hd
    · rw [hb.mgr]
      rfl
    · rw [hb.mgr]
      rfl
  move := fun ha hi hu hm => hu.move ha hi hm
  world := fun _ hu => hu.bounded
  forget := fun hd _ _ => hd

/-- The handles of a process that are not done; there are none without a process. -/
def Bridge.activeCount : Bridge → ℕ
  | down _ => 0
  | up p => p.mgr.activeCount

/-- Live handles and live rows are bounded at every moment, over any number of
crashes and restarts, though recovery asks no limit. -/
theorem backlog_bounded {host : Host} {limits : LimitsConfig} {policy : RecoveryPolicy} {b : Bridge}
    (h : (Bridge.machine host).Reachable (fixed limits policy).ok b) :
    b.activeCount ≤ limits.globalActiveTasks ∧
    b.world.store.rows.countP Store.isLive ≤
      limits.globalPendingTasks + limits.globalActiveTasks ∧
    ∀ workerId, b.world.store.rows.countP (Store.isLiveOf workerId) ≤
      limits.perWorkerPendingTasks + limits.globalActiveTasks := by
  have hb := (steady_rule limits policy).holds h
  cases b with
  | down w => exact ⟨Nat.zero_le _, hb.2.live, hb.2.liveOf⟩
  | up p => exact ⟨hb.2.active, hb.2.bounded.live, hb.2.bounded.liveOf⟩

instance (limits : LimitsConfig) (policy : RecoveryPolicy) :
    DecidablePred (fixed limits policy).settings :=
  fun _ => inferInstanceAs (Decidable (_ ∧ _))

instance (limits : LimitsConfig) (policy : RecoveryPolicy) (p : Process) (a : Action) :
    Decidable ((fixed limits policy).action p a) :=
  match a with
  | .call _ _ _ => inferInstanceAs (Decidable (_ ∧ _))
  | .reload _ _ _ => inferInstanceAs (Decidable (_ ∧ _))
  | .check _ | .cancel _ _ | .resume _ _ _ | .workerReturned _ _ _ | .workerRaised _ _ _
  | .throwCancelled _ _ | .doneCallback _ | .stop | .stopped => isTrue trivial

/-- A task sent before a crash and recovered after it. -/
theorem backlog_bounded_restart : ∃ b : Bridge, b.world.lifetimes = 2 ∧ b.activeCount = 1 ∧
    b.activeCount ≤ 4 ∧ b.world.store.rows.countP Store.isLive ≤ 4 + 4 ∧
    ∀ workerId, b.world.store.rows.countP (Store.isLiveOf workerId) ≤ 4 + 4 := by
  obtain ⟨b, hb, hp⟩ := Runs.Machine.exists_reachable_of_run (Bridge.machine Sample.host)
    (fixed (Sample.settings .always 0).limits .always).ok
    [.start (Sample.settings .always 0) "t0", Sample.call "a" none, .act (.resume 0 "r" "t1"),
      .crash, .start (Sample.settings .always 0) "t2"]
    (fun b => decide (b.world.lifetimes = 2) && decide (b.activeCount = 1)) (by decide)
  rw [Bool.and_eq_true, decide_eq_true_iff, decide_eq_true_iff] at hp
  exact ⟨b, hp.1, hp.2, backlog_bounded hb⟩

end WorkerBridge
